import Blockwork.Toml.Document

/-! Test cases: a program, bindings for it, and what is expected of its loading, its compilation and
its run. A case is a TOML table. -/

namespace Blockwork.Testing

structure Expectations where
  /-- Bindings that hold after the run; there may be others. -/
  bindings : Option Toml.Table := none
  error : Option String := none
  parseError : Bool := false
  generateError : Option String := none
  codeContains : List String := []

structure Case where
  description : Option String := none
  program : String
  globals : Toml.Table := []
  expect : Expectations := {}

inductive CaseFlaw where
  | notToml
  | unknownField (name : String)
  | missingField (name : String)
  | badField (name expected : String)

def CaseFlaw.text : CaseFlaw → String
  | .notToml => "no TOML document"
  | .unknownField name => "unknown field `" ++ name ++ "`"
  | .missingField name => "missing field `" ++ name ++ "`"
  | .badField name expected => "`" ++ name ++ "` is no " ++ expected

def readField (t : Toml.Table) (name expected : String) {α : Type} (read : Toml → Option α) :
    Except CaseFlaw (Option α) :=
  match t.get? name with
  | none => .ok none
  | some item =>
    match read item with
    | some a => .ok (some a)
    | none => .error (.badField name expected)

def checkNames (allowed : List String) (t : Toml.Table) : Except CaseFlaw Unit :=
  match t.names.find? fun name => !allowed.contains name with
  | some name => .error (.unknownField name)
  | none => .ok ()

def Expectations.ofTable (t : Toml.Table) : Except CaseFlaw Expectations := do
  checkNames ["bindings", "error", "parse_error", "generate_error", "code_contains"] t
  return {
    bindings := ← readField t "bindings" "table" Toml.table?
    error := ← readField t "error" "string" Toml.text?
    parseError := (← readField t "parse_error" "boolean" Toml.bool?).getD false
    generateError := ← readField t "generate_error" "string" Toml.text?
    codeContains := (← readField t "code_contains" "array of strings" Toml.texts?).getD [] }

def Case.ofTable (t : Toml.Table) : Except CaseFlaw Case := do
  checkNames ["description", "program", "globals", "expect"] t
  let expect ← match ← readField t "expect" "table" Toml.table? with
    | some expect => Expectations.ofTable expect
    | none => pure {}
  match ← readField t "program" "string" Toml.text? with
  | none => throw (.missingField "program")
  | some program =>
    return {
      description := ← readField t "description" "string" Toml.text?
      program
      globals := (← readField t "globals" "table" Toml.table?).getD []
      expect }

def Case.ofText (source : String) : Except CaseFlaw Case :=
  match Toml.read? source with
  | some t => Case.ofTable t
  | none => .error .notToml

end Blockwork.Testing
