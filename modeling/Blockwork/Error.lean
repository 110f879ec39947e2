import Blockwork.Graph.Load

/-! Why a program cannot be built, run or compiled. -/

namespace Blockwork

inductive Part where
  | field
  | value
  | statement
  | mutation
deriving Repr, DecidableEq

inductive FieldFlaw where
  | noReference
  | undeclared (id : String)
  | notLiteral
deriving Repr, DecidableEq

inductive GraphFlaw where
  | unloadable (e : LoadError)
  | unnamedVariable
  | untypedBlock (id : String)
  | unnamedSlot (kind id : String)
  | repeatedSlot (kind id name : String)
  | badField (kind id name : String) (flaw : FieldFlaw)

inductive Refusal where
  | option (kind field value : String)
  | primeForm
  | listTooLong (length : Float)
  | host (reason : String)

inductive EngineError where
  | unknownKind (tag : String)
  | malformed (flaw : GraphFlaw)
  | missing (part : Part) (name kind id : String)
  | unsupported (refusal : Refusal)
  | mismatch (expected got : String)

def longestList : Nat := Nat.pow 2 24

private def ticked (s : String) : String := "`" ++ s ++ "`"

def Part.text : Part → String
  | .field => "field"
  | .value => "value input"
  | .statement => "statement input"
  | .mutation => "mutation"

def FieldFlaw.text : FieldFlaw → String
  | .noReference => "a reference needs a `name` or `id`"
  | .undeclared id => "undeclared variable id " ++ ticked id
  | .notLiteral => "expected a string, number, boolean or reference"

def GraphFlaw.text : GraphFlaw → String
  | .unloadable e => e.message
  | .unnamedVariable => "declared variable with an empty name"
  | .untypedBlock id => "block " ++ ticked id ++ " has an empty type"
  | .unnamedSlot kind id => "block " ++ ticked kind ++ " (" ++ id ++ ") has a slot with an empty name"
  | .repeatedSlot kind id name =>
    "block " ++ ticked kind ++ " (" ++ id ++ ") declares slot " ++ ticked name ++ " twice"
  | .badField kind id name flaw =>
    "field " ++ ticked name ++ " of block " ++ ticked kind ++ " (" ++ id ++ "): " ++ flaw.text

def Refusal.text : Refusal → String
  | .option kind field value =>
    ticked kind ++ " has no " ++ field ++ " option " ++ ticked value
  | .primeForm => "the PRIME property of `math_number_property` has no generated form"
  | .listTooLong length =>
    "`lists_repeat` of " ++ Number.diagnostic.render length ++ " items exceeds the limit of " ++
      Nat.repr longestList
  | .host reason => reason

def EngineError.message : EngineError → String
  | .unknownKind tag => "unknown block kind " ++ ticked tag
  | .malformed flaw => "malformed graph: " ++ flaw.text
  | .missing part name kind id =>
    "block " ++ ticked kind ++ " (" ++ id ++ ") has no " ++ part.text ++ " named " ++ ticked name
  | .unsupported refusal => "unsupported operation: " ++ refusal.text
  | .mismatch expected got => "type mismatch: expected " ++ expected ++ ", got " ++ got

end Blockwork
