import Blockwork.Error

/-! The values that a running program computes with. -/

namespace Blockwork

inductive Value where
  | null
  | boolean (b : Bool)
  | number (x : Float)
  | text (s : String)
  | list (items : List Value)
deriving Inhabited

namespace Value

def typeName : Value → String
  | .null => "Null"
  | .boolean _ => "Boolean"
  | .number _ => "Number"
  | .text _ => "Text"
  | .list _ => "List"

def isNull : Value → Bool
  | .null => true
  | _ => false

def asCondition : Value → Except EngineError Bool
  | .boolean b => .ok b
  | .null => .ok false
  | v => .error (.mismatch "Boolean" v.typeName)

def asNumber : Value → Except EngineError Float
  | .number x => .ok x
  | v => .error (.mismatch "Number" v.typeName)

def asList : Value → Except EngineError (List Value)
  | .list items => .ok items
  | v => .error (.mismatch "List" v.typeName)

mutual

/-- Numbers compare as doubles, so a NaN equals nothing. -/
def equals : Value → Value → Bool
  | .null, .null => true
  | .boolean a, .boolean b => a == b
  | .number x, .number y => x == y
  | .text s, .text t => s == t
  | .list xs, .list ys => equalItems xs ys
  | _, _ => false

def equalItems : List Value → List Value → Bool
  | [], [] => true
  | x :: xs, y :: ys => x.equals y && equalItems xs ys
  | _, _ => false

end

mutual

/-- The text of a value. The items of a list stand between commas, with nothing for null. -/
def display : Value → String
  | .null => "null"
  | .boolean b => if b then "true" else "false"
  | .number x => Number.text x
  | .text s => s
  | .list items => displayItems items

def displayItems : List Value → String
  | [] => ""
  | [.null] => ""
  | [item] => item.display
  | .null :: rest => "," ++ displayItems rest
  | item :: rest => item.display ++ "," ++ displayItems rest

end

def integerLimit : Float := 1e15

def integer? (x : Float) : Option Int :=
  match Number.Binary.ofFloat? x with
  | some b =>
    if b.isWhole && x.abs < integerLimit then some (if b.negative then -b.whole else b.whole)
    else none
  | none => none

mutual

/-- Infinities and NaN become texts. -/
def json : Value → Json
  | .null => .null
  | .boolean b => .bool b
  | .number x =>
    match integer? x with
    | some n => .int n
    | none => if x.isFinite then .float x else .string (Number.text x)
  | .text s => .string s
  | .list items => .array (jsonItems items)

def jsonItems : List Value → List Json
  | [] => []
  | item :: rest => item.json :: jsonItems rest

end

mutual

def ofJson : Json → Except EngineError Value
  | .null => .ok .null
  | .bool b => .ok (.boolean b)
  | .int n => .ok (.number (Float.ofInt n))
  | .float x => .ok (.number x)
  | .string s => .ok (.text s)
  | .array items => do return .list (← ofJsonItems items)
  | .object _ => .error (.mismatch "null, boolean, number, text or list" "object")

def ofJsonItems : List Json → Except EngineError (List Value)
  | [] => .ok []
  | item :: rest => do
    let value ← ofJson item
    return value :: (← ofJsonItems rest)

end

end Value
end Blockwork
