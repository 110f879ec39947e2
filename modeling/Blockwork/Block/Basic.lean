import Blockwork.Context
import Blockwork.Number.Literal
import Blockwork.Text.Blank
import Blockwork.Value

/-! Blocks that are ready to run: each has a kind, and its slots hold chains of blocks. -/

namespace Blockwork

structure Mutation where
  domain : String
  name : String
  value : String
deriving Repr, DecidableEq

mutual

structure Block (κ : Type) where
  kind : κ
  tag : String
  id : String
  fields : Entries String
  values : List (Socket κ)
  statements : List (Socket κ)
  mutations : List Mutation
  comments : List String

/-- A named slot with a chain, which is empty if nothing is plugged in. -/
structure Socket (κ : Type) where
  name : String
  chain : List (Block κ)

end

structure Plug (α : Type) where
  filled : Bool
  meaning : α

/-- A block as its kind sees it: the settings, and a meaning for each slot. -/
structure Parts (α : Type) where
  tag : String
  id : String
  fields : Entries String
  mutations : List Mutation
  values : List (String × Plug α)
  statements : List (String × Plug α)

def plainDomain : String := "mutation"

namespace Parts

variable {α : Type}

def missing (p : Parts α) (part : Part) (name : String) : EngineError :=
  .missing part name p.tag p.id

def field (p : Parts α) (name : String) : Except EngineError String :=
  match p.fields.get? name with
  | some text => .ok text
  | none => .error (p.missing .field name)

def value (p : Parts α) (name : String) : Except EngineError (Plug α) :=
  match p.values.lookup name with
  | some plug => .ok plug
  | none => .error (p.missing .value name)

def statement (p : Parts α) (name : String) : Except EngineError (Plug α) :=
  match p.statements.lookup name with
  | some plug => .ok plug
  | none => .error (p.missing .statement name)

def mutation? (p : Parts α) (domain name : String) : Option String :=
  (p.mutations.find? fun m => m.domain = domain && m.name = name).map Mutation.value

def mutation (p : Parts α) (domain name : String) : Except EngineError String :=
  match p.mutation? domain name with
  | some value => .ok value
  | none => .error (p.missing .mutation name)

def option {β : Type} (p : Parts α) (name : String) (options : List (String × β)) :
    Except EngineError β := do
  let text ← p.field name
  match options.lookup text with
  | some choice => .ok choice
  | none => .error (.unsupported (.option p.tag name text))

def firstMutation? (p : Parts α) (names : List String) : Option (String × String) :=
  names.findSome? fun name => (p.mutation? plainDomain name).map fun value => (name, value)

end Parts

def readNumber? (text : String) : Option Number.Literal := Number.read? (Text.trim text)

def readNumber (text : String) : Except EngineError Number.Literal :=
  match readNumber? text with
  | some n => .ok n
  | none => .error (.mismatch "Number" ("`" ++ text ++ "`"))

def greatestCount : Nat := 10000

def readCount? (text : String) : Option Nat := do
  let x := (← readNumber? text).value
  if 0.0 ≤ x && x ≤ Float.ofNat greatestCount then
    let b ← Number.Binary.ofFloat? x
    if b.isWhole then some b.whole else none
  else none

namespace Parts

variable {α : Type}

def count (p : Parts α) (names : List String) (standard : Nat) : Except EngineError Nat :=
  match p.firstMutation? names with
  | none => .ok standard
  | some (name, text) =>
    match readCount? text with
    | some n => .ok n
    | none =>
      .error (.mismatch ("integer from 0 to " ++ Nat.repr greatestCount)
        ("`" ++ text ++ "` for mutation `" ++ name ++ "`"))

def flag (p : Parts α) (names : List String) : Bool :=
  (p.firstMutation? names).any fun (_, text) => text.toLower = "true" || Text.trim text = "1"

end Parts
end Blockwork
