import Blockwork.Toml.Print
import Blockwork.Value

/-! Bindings outside a program: they come in from TOML tables and go out as TOML or JSON. -/

namespace Blockwork

inductive ForeignValue where
  | moment (m : Toml.Moment)
  | table
deriving Repr, DecidableEq

def ForeignValue.text : ForeignValue → String
  | .moment m => "datetime `" ++ m.text ++ "` has no runtime value"
  | .table => "tables have no runtime value"

structure BindingError where
  name : String
  cause : ForeignValue
deriving Repr, DecidableEq

def BindingError.message (e : BindingError) : String :=
  "global `" ++ e.name ++ "`: " ++ e.cause.text

namespace Value

mutual

def ofToml : Toml → Except ForeignValue Value
  | .integer n => .ok (.number (Float.ofInt n))
  | .float x => .ok (.number x)
  | .boolean b => .ok (.boolean b)
  | .string s => .ok (.text s)
  | .moment m => .error (.moment m)
  | .array items => do return .list (← ofTomlItems items)
  | .table _ => .error .table

def ofTomlItems : List Toml → Except ForeignValue (List Value)
  | [] => .ok []
  | item :: rest => do
    let value ← ofToml item
    return value :: (← ofTomlItems rest)

end

mutual

/-- TOML has no null, and so no list with a null in it. -/
def toml? : Value → Option Toml
  | .null => none
  | .boolean b => some (.boolean b)
  | .number x =>
    match integer? x with
    | some n => some (.integer n)
    | none => some (.float x)
  | .text s => some (.string s)
  | .list items => (tomlItems? items).map .array

def tomlItems? : List Value → Option (List Toml)
  | [] => some []
  | item :: rest => do
    let first ← item.toml?
    return first :: (← tomlItems? rest)

end
end Value

namespace Bindings

def ofTable : Toml.Table → Except BindingError (List (String × Value))
  | [] => .ok []
  | (name, item) :: rest =>
    match Value.ofToml item with
    | .error cause => .error ⟨name, cause⟩
    | .ok value => do return (name, value) :: (← ofTable rest)

/-- A binding without a TOML form is a comment that shows its JSON form. -/
def tomlLine (name : String) (value : Value) : String :=
  match value.toml? with
  | some item => Toml.keyText name ++ " = " ++ item.render
  | none => "# " ++ Toml.keyText name ++ " = " ++ value.json.render

def toml (bindings : Entries Value) : String :=
  String.join (bindings.map fun (name, value) => tomlLine name value ++ "\n")

def json (bindings : Entries Value) : String :=
  Json.renderIndented 0 (.object (bindings.map fun (name, value) => (name, value.json)))

end Bindings
end Blockwork
