import Blockwork.Graph.Basic
import Blockwork.Json.Read

/-! Graphs read from JSON trees. A record is an object, whose unknown members are skipped, or an
array of its fields in order, of which the last ones may be missing. -/

namespace Blockwork

open Json

inductive EntryField where
  | kind | id | fields | inputs | statements | comment | mutation | next

def EntryField.all : List EntryField :=
  [.kind, .id, .fields, .inputs, .statements, .comment, .mutation, .next]

def EntryField.ofName? : String → Option EntryField
  | "type" => some .kind
  | "id" => some .id
  | "fields" => some .fields
  | "inputs" => some .inputs
  | "statements" => some .statements
  | "comment" => some .comment
  | "mutation" => some .mutation
  | "next" => some .next
  | _ => none

structure EntryDraft where
  kind : Option String := none
  id : Option String := none
  fields : Option (Entries Json) := none
  inputs : Option (List Slot) := none
  statements : Option (List Slot) := none
  comment : Option (Option String) := none
  mutation : Option (Entries Json) := none
  next : Option (List Entry) := none

namespace EntryDraft

def has (d : EntryDraft) : EntryField → Bool
  | .kind => d.kind.isSome
  | .id => d.id.isSome
  | .fields => d.fields.isSome
  | .inputs => d.inputs.isSome
  | .statements => d.statements.isSome
  | .comment => d.comment.isSome
  | .mutation => d.mutation.isSome
  | .next => d.next.isSome

/-- The chain that begins with the block. Only the type is required. -/
def finish (d : EntryDraft) (missing : Fault) : Except Fault (List Entry) :=
  match d.kind with
  | none => .error missing
  | some kind =>
    .ok ({ kind
           id := d.id.getD ""
           fields := d.fields.getD []
           inputs := d.inputs.getD []
           statements := d.statements.getD []
           comment := d.comment.getD none
           mutation := d.mutation.getD [] } :: d.next.getD [])

end EntryDraft

inductive SlotField where
  | name | block | shadow

def SlotField.all : List SlotField := [.name, .block, .shadow]

def SlotField.ofName? : String → Option SlotField
  | "name" => some .name
  | "block" => some .block
  | "shadow" => some .shadow
  | _ => none

structure SlotDraft where
  name : Option String := none
  block : Option (List Entry) := none
  shadow : Option (List Entry) := none

namespace SlotDraft

def has (d : SlotDraft) : SlotField → Bool
  | .name => d.name.isSome
  | .block => d.block.isSome
  | .shadow => d.shadow.isSome

def set (d : SlotDraft) (chain : List Entry) : SlotField → SlotDraft
  | .name => d
  | .block => { d with block := some chain }
  | .shadow => { d with shadow := some chain }

def finish (d : SlotDraft) (missing : Fault) : Except Fault Slot :=
  match d.name with
  | none => .error missing
  | some name => .ok { name, block := d.block.getD [], shadow := d.shadow.getD [] }

end SlotDraft

/-- The check at the end of an array of fields: whether further ones could follow decides what is
wrong with a bad end. -/
def endOfFields {α : Type} (left : List α) (ending : Ending) : Except Fault Unit :=
  succeedUnless (if left.isEmpty then ending.fullListFault? else ending.listFault?)

def tooManyFields (node : Node) : Fault := ⟨.trailingCharacters, node.start + 1⟩

def entryName : String := "struct BlockEntry"

def slotName : String := "struct SlotEntry"

mutual

def readEntryMembers (d : EntryDraft) (ending : Ending) :
    List Member → Except Fault (List Entry)
  | [] => do
    succeedUnless ending.objectFault?
    d.finish ⟨.missingField "type", ending.stop⟩
  | ⟨key, refused, node⟩ :: rest => do
    let name ← key
    match EntryField.ofName? name with
    | none =>
      node.skip
      readEntryMembers d ending rest
    | some field =>
      if d.has field then .error ⟨.duplicateField name, refused⟩
      else
        let d ← readEntryField d field node
        readEntryMembers d ending rest

def readEntryItems (d : EntryDraft) (ending : Ending) :
    List EntryField → List Node → Except Fault (List Entry)
  | left, [] => do
    endOfFields left ending
    d.finish ⟨.tooShort 0 (entryName ++ " with 8 elements"), ending.stop⟩
  | [], node :: _ => .error (tooManyFields node)
  | field :: left, node :: rest => do
    let d ← readEntryField d field node
    readEntryItems d ending left rest

def readEntryField (d : EntryDraft) : EntryField → Node → Except Fault EntryDraft
  | .kind, node => do return { d with kind := some (← node.readText) }
  | .id, node => do return { d with id := some (← node.readText) }
  | .fields, node => do return { d with fields := some (← node.readMap) }
  | .inputs, .array _ items ending => do
    return { d with inputs := some (← readSlots ending items) }
  | .statements, .array _ items ending => do
    return { d with statements := some (← readSlots ending items) }
  | .inputs, node | .statements, node => .error (node.mismatch "a sequence")
  | .comment, node => do return { d with comment := some (← node.readText?) }
  | .mutation, node => do return { d with mutation := some (← node.readMap) }
  | .next, .scalar _ _ (.ok .null) => .ok { d with next := some [] }
  | .next, .object _ members ending => do
    return { d with next := some (← readEntryMembers {} ending members) }
  | .next, .array _ items ending => do
    return { d with next := some (← readEntryItems {} ending EntryField.all items) }
  | .next, node => .error (node.mismatch entryName)

def readSlots (ending : Ending) : List Node → Except Fault (List Slot)
  | [] => do
    succeedUnless ending.listFault?
    return []
  | .object _ members ending' :: rest => do
    let slot ← readSlotMembers {} ending' members
    return slot :: (← readSlots ending rest)
  | .array _ items ending' :: rest => do
    let slot ← readSlotItems {} ending' SlotField.all items
    return slot :: (← readSlots ending rest)
  | node :: _ => .error (node.mismatch slotName)

def readSlotMembers (d : SlotDraft) (ending : Ending) : List Member → Except Fault Slot
  | [] => do
    succeedUnless ending.objectFault?
    d.finish ⟨.missingField "name", ending.stop⟩
  | ⟨key, refused, node⟩ :: rest => do
    let name ← key
    match SlotField.ofName? name with
    | none =>
      node.skip
      readSlotMembers d ending rest
    | some field =>
      if d.has field then .error ⟨.duplicateField name, refused⟩
      else
        let d ← readSlotField d field node
        readSlotMembers d ending rest

def readSlotItems (d : SlotDraft) (ending : Ending) :
    List SlotField → List Node → Except Fault Slot
  | left, [] => do
    endOfFields left ending
    d.finish ⟨.tooShort 0 (slotName ++ " with 3 elements"), ending.stop⟩
  | [], node :: _ => .error (tooManyFields node)
  | field :: left, node :: rest => do
    let d ← readSlotField d field node
    readSlotItems d ending left rest

def readSlotField (d : SlotDraft) : SlotField → Node → Except Fault SlotDraft
  | .name, node => do return { d with name := some (← node.readText) }
  | field, .scalar _ _ (.ok .null) => .ok (d.set [] field)
  | field, .object _ members ending => do
    return d.set (← readEntryMembers {} ending members) field
  | field, .array _ items ending => do
    return d.set (← readEntryItems {} ending EntryField.all items) field
  | _, node => .error (node.mismatch entryName)

end

def readChain : Node → Except Fault (List Entry)
  | .object _ members ending => readEntryMembers {} ending members
  | .array _ items ending => readEntryItems {} ending EntryField.all items
  | node => .error (node.mismatch entryName)

def readList {α : Type} (item : Node → Except Fault α) : Node → Except Fault (List α)
  | .array _ items ending => do
    let items ← items.mapM item
    succeedUnless ending.listFault?
    return items
  | node => .error (node.mismatch "a sequence")

/-- A record without a part of its own kind: what it is called, its fields in order with a reader
for each, and what is required at the end. -/
structure RecordForm (Draft α : Type) where
  name : String
  fields : List (String × (Draft → Node → Except Fault Draft))
  has : Draft → String → Bool
  finish : Draft → Fault → Except Fault α
  required : String

namespace RecordForm

variable {Draft α : Type}

def readMembers (r : RecordForm Draft α) (d : Draft) (ending : Ending) :
    List Member → Except Fault α
  | [] => do
    succeedUnless ending.objectFault?
    r.finish d ⟨.missingField r.required, ending.stop⟩
  | ⟨key, refused, node⟩ :: rest => do
    let name ← key
    match r.fields.lookup name with
    | none =>
      node.skip
      r.readMembers d ending rest
    | some read =>
      if r.has d name then .error ⟨.duplicateField name, refused⟩
      else
        let d ← read d node
        r.readMembers d ending rest

def readItems (r : RecordForm Draft α) (d : Draft) (ending : Ending) :
    List (String × (Draft → Node → Except Fault Draft)) → List Node → Except Fault α
  | left, [] => do
    endOfFields left ending
    r.finish d
      ⟨.tooShort 0 (r.name ++ " with " ++ Nat.repr r.fields.length ++ " elements"), ending.stop⟩
  | [], node :: _ => .error (tooManyFields node)
  | (_, read) :: left, node :: rest => do
    let d ← read d node
    r.readItems d ending left rest

def read (r : RecordForm Draft α) (start : Draft) : Node → Except Fault α
  | .object _ members ending => r.readMembers start ending members
  | .array _ items ending => r.readItems start ending r.fields items
  | node => .error (node.mismatch r.name)

end RecordForm

structure DeclarationDraft where
  name : Option String := none
  id : Option (Option String) := none
  kind : Option (Option String) := none

def declarationForm : RecordForm DeclarationDraft Declaration where
  name := "struct VariableDeclaration"
  required := "name"
  fields := [
    ("name", fun d node => do return { d with name := some (← node.readText) }),
    ("id", fun d node => do return { d with id := some (← node.readText?) }),
    ("type", fun d node => do return { d with kind := some (← node.readText?) })]
  has d
    | "name" => d.name.isSome
    | "id" => d.id.isSome
    | "type" => d.kind.isSome
    | _ => false
  finish d missing :=
    match d.name with
    | none => .error missing
    | some name => .ok { name, id := d.id.getD none, kind := d.kind.getD none }

structure GraphDraft where
  blocks : Option (List (List Entry)) := none
  declarations : Option (List Declaration) := none

def graphForm : RecordForm GraphDraft Graph where
  name := "struct SerializedGraph"
  required := ""
  fields := [
    ("blocks", fun d node => do return { d with blocks := some (← readList readChain node) }),
    ("variables", fun d node => do
      return { d with declarations := some (← readList (declarationForm.read {}) node) })]
  has d
    | "blocks" => d.blocks.isSome
    | "variables" => d.declarations.isSome
    | _ => false
  finish d _ := .ok { blocks := d.blocks.getD [], declarations := d.declarations.getD [] }

def Graph.read (text : String) : Except Fault Graph := do
  let document := Document.ofText text
  let graph ← graphForm.read {} document.root
  succeedUnless document.trailing
  return graph

end Blockwork
