import Blockwork.Json.Basic

/-! A program as it is stored: chains of blocks, blocks with named slots, and slots that hold
further chains. Nothing is said yet about what a type of block means. -/

namespace Blockwork

mutual

structure Entry where
  kind : String
  id : String := ""
  fields : Entries Json := []
  inputs : List Slot := []
  statements : List Slot := []
  comment : Option String := none
  mutation : Entries Json := []

/-- A named place for a chain. The shadow takes the place of a missing block; an absent chain is
empty. -/
structure Slot where
  name : String
  block : List Entry := []
  shadow : List Entry := []

end

structure Declaration where
  name : String
  id : Option String := none
  kind : Option String := none
deriving Repr, DecidableEq

structure Graph where
  blocks : List (List Entry) := []
  declarations : List Declaration := []

namespace Entry

def withField (e : Entry) (name : String) (value : Json) : Entry :=
  { e with fields := e.fields.put name value }

def withMutation (e : Entry) (name : String) (value : Json) : Entry :=
  { e with mutation := e.mutation.put name value }

def withInput (e : Entry) (slot : Slot) : Entry := { e with inputs := e.inputs ++ [slot] }

def withStatement (e : Entry) (slot : Slot) : Entry :=
  { e with statements := e.statements ++ [slot] }

end Entry

def Slot.payload (s : Slot) : List Entry := if s.block.isEmpty then s.shadow else s.block

mutual

/-- The number of blocks in and below a block, hidden shadows included. -/
def Entry.size : Entry → Nat
  | { inputs, statements, .. } => 1 + slotsSize inputs + slotsSize statements

def slotsSize : List Slot → Nat
  | [] => 0
  | { block, shadow, .. } :: rest => chainSize block + chainSize shadow + slotsSize rest

def chainSize : List Entry → Nat
  | [] => 0
  | entry :: rest => entry.size + chainSize rest

end

def chainsSize : List (List Entry) → Nat
  | [] => 0
  | chain :: rest => chainSize chain + chainsSize rest

def Graph.blockCount (g : Graph) : Nat := chainsSize g.blocks

mutual

/-- The members of a block's object, but for the blocks that follow it. Empty members are left
out. -/
def Entry.members : Entry → List (String × Json)
  | ⟨kind, id, fields, inputs, statements, comment, mutation⟩ =>
    [("type", .string kind), ("id", .string id)] ++
      (if fields.isEmpty then [] else [("fields", .object fields)]) ++
      (if inputs.isEmpty then [] else [("inputs", .array (slotsJson inputs))]) ++
      (if statements.isEmpty then [] else [("statements", .array (slotsJson statements))]) ++
      (match comment with
        | none => []
        | some text => [("comment", .string text)]) ++
      (if mutation.isEmpty then [] else [("mutation", .object mutation)])

/-- A chain is the object of its first block, with the others nested below it. -/
def chainJson : List Entry → Json
  | [] => .null
  | entry :: rest =>
    .object (entry.members ++ if rest.isEmpty then [] else [("next", chainJson rest)])

def slotsJson : List Slot → List Json
  | [] => []
  | ⟨name, block, shadow⟩ :: rest =>
    .object ([("name", .string name)] ++
      (if block.isEmpty then [] else [("block", chainJson block)]) ++
      (if shadow.isEmpty then [] else [("shadow", chainJson shadow)])) :: slotsJson rest

end

def Declaration.json (d : Declaration) : Json :=
  .object ([("name", .string d.name)] ++
    (match d.id with
      | none => []
      | some id => [("id", .string id)]) ++
    (match d.kind with
      | none => []
      | some kind => [("type", .string kind)]))

def Graph.json (g : Graph) : Json :=
  .object ([("blocks", .array (g.blocks.map chainJson))] ++
    if g.declarations.isEmpty then [] else [("variables", .array (g.declarations.map Declaration.json))])

end Blockwork
