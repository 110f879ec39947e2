import Blockwork.Block.Basic
import Blockwork.Target.Expr

/-! The standard kinds of blocks, the tags they answer to, and the options of their fields. -/

namespace Blockwork

inductive CountSource where
  | input
  | field
deriving Repr, DecidableEq

inductive Kind where
  | branch (alwaysElse : Bool)
  | repeatTimes (source : CountSource)
  | whileUntil
  | countRange
  | forEach
  | flow
  | boolean
  | null
  | not
  | compare
  | junction
  | ternary
  | number
  | arithmetic
  | function
  | round
  | constant
  | property
  | modulo
  | constrain
  | change
  | text
  | join
  | append
  | textLength
  | textIsEmpty
  | changeCase
  | trim
  | get
  | set
  | emptyList
  | createList
  | repeatItem
  | listLength
  | listIsEmpty
deriving Repr, DecidableEq

def Kind.tags : List (String × Kind) := [
  ("controls_if", .branch false),
  ("controls_ifelse", .branch true),
  ("controls_repeat_ext", .repeatTimes .input),
  ("controls_repeat", .repeatTimes .field),
  ("controls_whileUntil", .whileUntil),
  ("controls_for", .countRange),
  ("controls_forEach", .forEach),
  ("controls_flow_statements", .flow),
  ("logic_boolean", .boolean),
  ("logic_null", .null),
  ("logic_negate", .not),
  ("logic_compare", .compare),
  ("logic_operation", .junction),
  ("logic_ternary", .ternary),
  ("math_number", .number),
  ("math_arithmetic", .arithmetic),
  ("math_single", .function),
  ("math_round", .round),
  ("math_constant", .constant),
  ("math_number_property", .property),
  ("math_modulo", .modulo),
  ("math_constrain", .constrain),
  ("math_change", .change),
  ("text", .text),
  ("text_join", .join),
  ("text_append", .append),
  ("text_length", .textLength),
  ("text_isEmpty", .textIsEmpty),
  ("text_changeCase", .changeCase),
  ("text_trim", .trim),
  ("variables_get", .get),
  ("variables_set", .set),
  ("lists_create_empty", .emptyList),
  ("lists_create_with", .createList),
  ("lists_repeat", .repeatItem),
  ("lists_length", .listLength),
  ("lists_isEmpty", .listIsEmpty)]

/-! ### Options -/

inductive Comparison where
  | equal
  | notEqual
  | less
  | lessOrEqual
  | greater
  | greaterOrEqual
deriving Repr, DecidableEq

inductive Junction where
  | and
  | or
deriving Repr, DecidableEq

inductive Operation where
  | add
  | subtract
  | multiply
  | divide
  | power
deriving Repr, DecidableEq

inductive MathFunction where
  | root
  | absolute
  | negate
  | naturalLog
  | decimalLog
  | exponential
  | powerOfTen
deriving Repr, DecidableEq

inductive Rounding where
  | nearest
  | up
  | down
deriving Repr, DecidableEq

inductive Property where
  | even
  | odd
  | prime
  | whole
  | positive
  | negative
  | divisible
deriving Repr, DecidableEq

inductive LetterCase where
  | upper
  | lower
  | title
deriving Repr, DecidableEq

inductive TrimSide where
  | both
  | left
  | right
deriving Repr, DecidableEq

inductive LoopMode where
  | repeatWhile
  | repeatUntil
deriving Repr, DecidableEq

def Comparison.options : List (String × Comparison) := [
  ("EQ", .equal), ("NEQ", .notEqual), ("LT", .less), ("LTE", .lessOrEqual), ("GT", .greater),
  ("GTE", .greaterOrEqual)]

def Junction.options : List (String × Junction) := [("AND", .and), ("OR", .or)]

def Operation.options : List (String × Operation) := [
  ("ADD", .add), ("MINUS", .subtract), ("MULTIPLY", .multiply), ("DIVIDE", .divide),
  ("POWER", .power)]

def MathFunction.options : List (String × MathFunction) := [
  ("ROOT", .root), ("ABS", .absolute), ("NEG", .negate), ("LN", .naturalLog),
  ("LOG10", .decimalLog), ("EXP", .exponential), ("POW10", .powerOfTen)]

def Rounding.options : List (String × Rounding) := [
  ("ROUND", .nearest), ("ROUNDUP", .up), ("ROUNDDOWN", .down)]

def Property.options : List (String × Property) := [
  ("EVEN", .even), ("ODD", .odd), ("PRIME", .prime), ("WHOLE", .whole), ("POSITIVE", .positive),
  ("NEGATIVE", .negative), ("DIVISIBLE_BY", .divisible)]

def LetterCase.options : List (String × LetterCase) := [
  ("UPPERCASE", .upper), ("LOWERCASE", .lower), ("TITLECASE", .title)]

def TrimSide.options : List (String × TrimSide) := [
  ("BOTH", .both), ("LEFT", .left), ("RIGHT", .right)]

def LoopMode.options : List (String × LoopMode) := [
  ("WHILE", .repeatWhile), ("UNTIL", .repeatUntil)]

def flowOptions : List (String × Escape) := [("BREAK", .breaking), ("CONTINUE", .continuing)]

def constantOptions : List (String × Float) := [
  ("PI", 3.141592653589793), ("E", 2.718281828459045),
  ("GOLDEN_RATIO", (1.0 + Float.sqrt 5.0) / 2.0), ("SQRT2", 1.4142135623730951),
  ("SQRT1_2", 0.7071067811865476), ("INFINITY", 1.0 / 0.0)]

/-- The setting of a field that says true or false in any case. -/
def Parts.boolean {α : Type} (p : Parts α) : Except EngineError Bool := do
  let text ← p.field "BOOL"
  if text.toLower = "true" then .ok true
  else if text.toLower = "false" then .ok false
  else .error (.mismatch "TRUE or FALSE" ("`" ++ text ++ "`"))

def Parts.arms {α : Type} (p : Parts α) (alwaysElse : Bool) : Except EngineError (Nat × Bool) := do
  let more ← p.count ["elseif", "elseIfCount"] 0
  return (more + 1, alwaysElse || p.flag ["else", "hasElse"])

def Parts.variable {α : Type} (p : Parts α) : Except EngineError String := p.field "VAR"

def numbered (sort : String) (i : Nat) : String := sort ++ Nat.repr i

end Blockwork
