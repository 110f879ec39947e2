import Blockwork.Interpreter.Basic
import Blockwork.Text.Case
import Blockwork.Text.Units

/-! What the kinds evaluate to that compute a value from their slots. -/

namespace Blockwork

/-- Whether one of two values comes before the other. A NaN is in no order with any number. -/
inductive Order where
  | less
  | equal
  | greater
  | unordered
deriving Repr, DecidableEq

def Order.ofFloats (x y : Float) : Order :=
  if x < y then .less else if x == y then .equal else if x > y then .greater else .unordered

def Order.ofTexts (s t : String) : Order :=
  if s < t then .less else if s = t then .equal else .greater

def Order.ofValues : Value → Value → Except EngineError Order
  | .number x, .number y => .ok (.ofFloats x y)
  | .text s, .text t => .ok (.ofTexts s t)
  | v, w => .error (.mismatch "two Numbers or two Texts" (v.typeName ++ " and " ++ w.typeName))

namespace Comparison

def holds (c : Comparison) (v w : Value) : Except EngineError Bool :=
  match c with
  | .equal => .ok (v.equals w)
  | .notEqual => .ok (!v.equals w)
  | .less => (Order.ofValues v w).map (· = .less)
  | .lessOrEqual => (Order.ofValues v w).map fun o => o = .less || o = .equal
  | .greater => (Order.ofValues v w).map (· = .greater)
  | .greaterOrEqual => (Order.ofValues v w).map fun o => o = .greater || o = .equal

end Comparison

def Operation.apply : Operation → Float → Float → Float
  | .add, x, y => x + y
  | .subtract, x, y => x - y
  | .multiply, x, y => x * y
  | .divide, x, y => x / y
  | .power, x, y => x.pow y

def MathFunction.apply : MathFunction → Float → Float
  | .root, x => x.sqrt
  | .absolute, x => x.abs
  | .negate, x => -x
  | .naturalLog, x => x.log
  | .decimalLog, x => x.log10
  | .exponential, x => x.exp
  | .powerOfTen, x => Float.pow 10.0 x

def Rounding.apply : Rounding → Float → Float
  | .nearest, x => Number.roundHalfUp x
  | .up, x => Number.ceil x
  | .down, x => Number.floor x

/-- The properties that need no divisor. Remainders have the sign of the number, so no negative
number is odd. -/
def Property.holds : Property → Float → Bool
  | .even, x => Number.remainder x 2 == 0
  | .odd, x => Number.remainder x 2 == 1
  | .prime, x => Number.isPrime x
  | .whole, x => Number.remainder x 1 == 0
  | .positive, x => x > 0
  | .negative, x => x < 0
  | .divisible, _ => false

def LetterCase.apply : LetterCase → String → String
  | .upper, s => Text.upper s
  | .lower, s => Text.lower s
  | .title, s => Text.title s

def TrimSide.apply : TrimSide → String → String
  | .both, s => Text.trim s
  | .left, s => Text.trimStart s
  | .right, s => Text.trimEnd s

def repeatValue (item : Value) (count : Float) : Except EngineError Value :=
  if count < 0 || !Number.isWhole count then
    .error (.mismatch "non-negative whole Number" (Number.diagnostic.render count))
  else if count > Float.ofNat longestList then .error (.unsupported (.listTooLong count))
  else
    let copies := ((Number.Binary.ofFloat? count).map Number.Binary.whole).getD 0
    .ok (.list (List.replicate copies item))

namespace Parts

def joinedText (p : Parts (Run Value)) (name : String) : Run String := do
  let plug ← p.value name
  if plug.filled then return (← plug.meaning).display else return ""

def evaluateItems (p : Parts (Run Value)) (names : List String) : Run (List Value) :=
  names.mapM p.evaluate

/-- Evaluates the second operand only if the first does not decide. -/
def evaluateJunction (p : Parts (Run Value)) (junction : Junction) : Run Value := do
  let first ← p.evaluateCondition "A"
  match junction, first with
  | .and, true | .or, false => return .boolean (← p.evaluateCondition "B")
  | _, _ => return .boolean first

def evaluateTernary (p : Parts (Run Value)) : Run Value := do
  if ← p.evaluateCondition "IF" then p.evaluate "THEN" else p.evaluate "ELSE"

def evaluateProperty (p : Parts (Run Value)) (property : Property) : Run Value := do
  let x ← p.evaluateNumber "NUMBER_TO_CHECK"
  match property with
  | .divisible => return .boolean (Number.remainder x (← p.evaluateNumber "DIVISOR") == 0)
  | property => return .boolean (property.holds x)

def evaluateConstrain (p : Parts (Run Value)) : Run Value := do
  let x ← p.evaluateNumber "VALUE"
  let low ← p.evaluateNumber "LOW"
  let high ← p.evaluateNumber "HIGH"
  return .number (Number.minimum (Number.maximum x low) high)

end Parts
end Blockwork
