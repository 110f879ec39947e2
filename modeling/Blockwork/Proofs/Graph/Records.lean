import Blockwork.Graph.Load
import Blockwork.Proofs.Json.Layout

/-! A record in object form is read member by member into a draft. Each known member fills a place of
its own and unknown members fill none, so that neither the order of the members nor the unknown ones
among them show in what is read. -/

namespace Blockwork

open Json

inductive Record where
  | graph
  | chain
  | slot
  | declaration

inductive Content where
  | text
  | optionalText
  | map
  | link
  | list (r : Record)

abbrev Record.Result : Record → Type
  | .graph => Graph
  | .chain => List Entry
  | .slot => Slot
  | .declaration => Declaration

def readSlot : Node → Except Fault Slot
  | .object _ members ending => readSlotMembers {} ending members
  | .array _ items ending => readSlotItems {} ending SlotField.all items
  | node => .error (node.mismatch slotName)

theorem readSlots_eq (start : Nat) (ending : Ending) (nodes : List Node) :
    readSlots ending nodes = readList readSlot (.array start nodes ending) := by
  induction nodes with
  | nil => rfl
  | cons node nodes ih =>
    cases node with
    | scalar | broken => rfl
    | array | object => simp [readSlots, readList, List.mapM_cons, readSlot, ih]

def Record.read : (r : Record) → Node → Except Fault r.Result
  | .graph => graphForm.read {}
  | .chain => readChain
  | .slot => readSlot
  | .declaration => declarationForm.read {}

namespace Content

abbrev Part : Content → Type
  | .text => String
  | .optionalText => Option String
  | .map => Entries Json
  | .link => List Entry
  | .list r => List r.Result

def read : (c : Content) → Node → Except Fault c.Part
  | .text => Node.readText
  | .optionalText => Node.readText?
  | .map => Node.readMap
  | .link => fun node => if node.isNull then .ok [] else readChain node
  | .list r => readList r.read

end Content

/-- How the members of a record are taken into a draft of it. A place is filled once, and filling one
does not touch the others. -/
structure Shape (α : Type) where
  Draft : Type
  Field : Type
  start : Draft
  field? : String → Option Field
  content : Field → Content
  has : Draft → Field → Bool
  put : Draft → (f : Field) → (content f).Part → Draft
  finish? : Draft → Option α
  has_put_self : ∀ d f v, has (put d f v) f = true
  has_put_of_ne : ∀ d f v g, g ≠ f → has (put d f v) g = has d g
  put_comm : ∀ d f v g w, f ≠ g → put (put d f v) g w = put (put d g w) f v

namespace Shape

variable {α : Type} (s : Shape α)

def step (d : s.Draft) (m : Member) : Option s.Draft :=
  m.key.toOption.bind fun name =>
    match s.field? name with
    | none => m.value.skip.toOption.map fun _ => d
    | some f => if s.has d f then none else ((s.content f).read m.value).toOption.map (s.put d f)

def read? (members : List Member) : Option α := (members.foldlM s.step s.start).bind s.finish?

variable {s} {d : s.Draft} {m : Member} {name : String}

theorem step_unknown (hkey : m.key.toOption = some name) (hfield : s.field? name = none) :
    s.step d m = m.value.skip.toOption.map fun _ => d := by
  rw [step, hkey, Option.bind_some, hfield]

theorem step_known {f : s.Field} (hkey : m.key.toOption = some name)
    (hfield : s.field? name = some f) : s.step d m =
      if s.has d f then none else ((s.content f).read m.value).toOption.map (s.put d f) := by
  rw [step, hkey, Option.bind_some, hfield]

theorem step_keyless (hkey : m.key.toOption = none) : s.step d m = none := by
  rw [step, hkey, Option.bind_none]

/-- Members of the record: those without a key, those it does not know, and its fields. -/
theorem step_cases (s : Shape α) (m : Member) :
    (∀ d, s.step d m = none) ∨ (∀ d, s.step d m = some d) ∨
      ∃ f, ∃ part : Option (s.content f).Part,
        ∀ d, s.step d m = if s.has d f then none else part.map (s.put d f) := by
  cases hkey : m.key.toOption with
  | none => exact .inl fun d => step_keyless hkey
  | some name =>
    cases hfield : s.field? name with
    | none =>
      cases hskip : m.value.skip.toOption with
      | none => exact .inl fun d => by rw [step_unknown hkey hfield, hskip]; rfl
      | some => exact .inr (.inl fun d => by rw [step_unknown hkey hfield, hskip]; rfl)
    | some f => exact .inr (.inr ⟨f, _, fun d => step_known hkey hfield⟩)

theorem step_comm (d : s.Draft) (a b : Member) :
    (s.step d a).bind (s.step · b) = (s.step d b).bind (s.step · a) := by
  obtain ha | ha | ⟨f, v, ha⟩ := s.step_cases a
  · simp [ha]
  · simp [ha]
  · obtain hb | hb | ⟨g, w, hb⟩ := s.step_cases b
    · simp [hb]
    · simp [hb]
    · simp only [ha, hb]
      by_cases hfg : f = g
      · -- The second of two members of one field is refused.
        subst hfg
        cases s.has d f <;> cases v <;> cases w <;> simp [s.has_put_self]
      · have hgf : g ≠ f := fun h => hfg h.symm
        cases v with
        | none => cases s.has d g <;> cases w <;> simp
        | some v =>
          cases w with
          | none => cases s.has d f <;> simp
          | some w =>
            cases hd : s.has d f <;> cases hd' : s.has d g <;>
              simp [hd, hd', s.has_put_of_ne _ _ _ _ hgf, s.has_put_of_ne _ _ _ _ hfg,
                s.put_comm d f v g w hfg]

theorem foldlM_perm {members members' : List Member} (h : members.Perm members') (d : s.Draft) :
    members.foldlM s.step d = members'.foldlM s.step d := by
  induction h generalizing d with
  | nil => rfl
  | cons m _ ih =>
    rw [List.foldlM_cons, List.foldlM_cons]
    exact Option.bind_congr fun d _ => ih d
  | swap a b rest =>
    simp only [List.foldlM_cons]
    show ((s.step d b).bind fun d => (s.step d a).bind _) = ((s.step d a).bind fun d => (s.step d b).bind _)
    rw [← Option.bind_assoc, ← Option.bind_assoc, step_comm]
  | trans _ _ ih ih' => exact (ih d).trans (ih' d)

/-- The order of the members does not matter. -/
theorem read?_perm {members members' : List Member} (h : members.Perm members') :
    s.read? members = s.read? members' := by
  rw [read?, read?, foldlM_perm h]

def Ignores (s : Shape α) (m : Member) : Prop :=
  ∃ name, m.key.toOption = some name ∧ s.field? name = none ∧ m.value.skip = .ok ()

theorem Ignores.step_eq (h : s.Ignores m) (d : s.Draft) : s.step d m = some d := by
  obtain ⟨name, hkey, hfield, hskip⟩ := h
  rw [step_unknown hkey hfield, hskip]
  rfl

theorem read?_append_ignored {spare : List Member} (h : ∀ m ∈ spare, s.Ignores m)
    (members : List Member) : s.read? (members ++ spare) = s.read? members := by
  have hspare : ∀ d, spare.foldlM s.step d = some d := by
    intro d
    induction spare with
    | nil => rfl
    | cons m spare ih =>
      rw [List.forall_mem_cons] at h
      rw [List.foldlM_cons, h.1.step_eq]
      exact ih h.2
  rw [read?, read?, List.foldlM_append]
  show ((members.foldlM s.step s.start).bind fun d => spare.foldlM s.step d).bind s.finish? = _
  rw [funext hspare, Option.bind_fun_some]

theorem toOption_read (read : s.Draft → List Member → Except Fault α)
    (hnil : ∀ d, (read d []).toOption = s.finish? d)
    (hcons : ∀ d key refused node members, read d (⟨key, refused, node⟩ :: members) = do
      let name ← key
      match s.field? name with
      | none =>
        node.skip
        read d members
      | some f =>
        if s.has d f then .error ⟨.duplicateField name, refused⟩
        else
          let v ← (s.content f).read node
          read (s.put d f v) members)
    (members : List Member) : (read s.start members).toOption = s.read? members := by
  -- for the induction the draft has to be arbitrary: each member changes it
  suffices h : ∀ d, (read d members).toOption = (members.foldlM s.step d).bind s.finish? from
    h s.start
  induction members with
  | nil => exact hnil
  | cons m members ih =>
    intro d
    obtain ⟨key, refused, node⟩ := m
    have hfold : ((⟨key, refused, node⟩ : Member) :: members).foldlM s.step d =
        (s.step d ⟨key, refused, node⟩).bind fun d => members.foldlM s.step d := List.foldlM_cons
    rw [hfold, Option.bind_assoc, hcons, toOption_bind, step, Option.bind_assoc]
    simp only [← ih]
    refine Option.bind_congr fun name _ => ?_
    cases s.field? name with
    | none =>
      rw [toOption_bind]
      cases node.skip <;> rfl
    | some f =>
      by_cases hd : s.has d f = true
      · simp only [hd]
        rfl
      · simp only [hd]
        cases (s.content f).read node <;> rfl

theorem read?_congr {members members' : List Member}
    (h : List.Forall₂ (fun m m' => ∀ d, s.step d m = s.step d m') members members') :
    s.read? members = s.read? members' := by
  have hfold : ∀ d, members.foldlM s.step d = members'.foldlM s.step d := by
    induction h with
    | nil => exact fun _ => rfl
    | cons hm _ ih =>
      intro d
      rw [List.foldlM_cons, List.foldlM_cons, hm d]
      exact Option.bind_congr fun d _ => ih d
  rw [read?, read?, hfold]

end Shape

/-! ### The records of a program -/

namespace EntryField

def content : EntryField → Content
  | .kind | .id => .text
  | .fields | .mutation => .map
  | .inputs | .statements => .list .slot
  | .comment => .optionalText
  | .next => .link

end EntryField

def EntryDraft.put (d : EntryDraft) : (f : EntryField) → f.content.Part → EntryDraft
  | .kind, v => { d with kind := some v }
  | .id, v => { d with id := some v }
  | .fields, v => { d with fields := some v }
  | .inputs, v => { d with inputs := some v }
  | .statements, v => { d with statements := some v }
  | .comment, v => { d with comment := some v }
  | .mutation, v => { d with mutation := some v }
  | .next, v => { d with next := some v }

def chainShape : Shape (List Entry) where
  Draft := EntryDraft
  Field := EntryField
  start := {}
  field? := EntryField.ofName?
  content := EntryField.content
  has := EntryDraft.has
  put := EntryDraft.put
  finish? d := (d.finish ⟨.missingField "type", 0⟩).toOption
  has_put_self d f v := by cases f <;> rfl
  has_put_of_ne d f v g h := by cases f <;> cases g <;> first | rfl | exact absurd rfl h
  put_comm d f v g w h := by cases f <;> cases g <;> first | rfl | exact absurd rfl h

def SlotField.content : SlotField → Content
  | .name => .text
  | .block | .shadow => .link

def SlotDraft.put (d : SlotDraft) : (f : SlotField) → f.content.Part → SlotDraft
  | .name, v => { d with name := some v }
  | .block, v => { d with block := some v }
  | .shadow, v => { d with shadow := some v }

def slotShape : Shape Slot where
  Draft := SlotDraft
  Field := SlotField
  start := {}
  field? := SlotField.ofName?
  content := SlotField.content
  has := SlotDraft.has
  put := SlotDraft.put
  finish? d := (d.finish ⟨.missingField "name", 0⟩).toOption
  has_put_self d f v := by cases f <;> rfl
  has_put_of_ne d f v g h := by cases f <;> cases g <;> first | rfl | exact absurd rfl h
  put_comm d f v g w h := by cases f <;> cases g <;> first | rfl | exact absurd rfl h

inductive DeclarationField where
  | name | id | kind

namespace DeclarationField

def ofName? : String → Option DeclarationField
  | "name" => some .name
  | "id" => some .id
  | "type" => some .kind
  | _ => none

def content : DeclarationField → Content
  | .name => .text
  | .id | .kind => .optionalText

end DeclarationField

namespace DeclarationDraft

def has (d : DeclarationDraft) : DeclarationField → Bool
  | .name => d.name.isSome
  | .id => d.id.isSome
  | .kind => d.kind.isSome

def put (d : DeclarationDraft) : (f : DeclarationField) → f.content.Part → DeclarationDraft
  | .name, v => { d with name := some v }
  | .id, v => { d with id := some v }
  | .kind, v => { d with kind := some v }

end DeclarationDraft

def declarationShape : Shape Declaration where
  Draft := DeclarationDraft
  Field := DeclarationField
  start := {}
  field? := DeclarationField.ofName?
  content := DeclarationField.content
  has := DeclarationDraft.has
  put := DeclarationDraft.put
  finish? d := (declarationForm.finish d ⟨.missingField "name", 0⟩).toOption
  has_put_self d f v := by cases f <;> rfl
  has_put_of_ne d f v g h := by cases f <;> cases g <;> first | rfl | exact absurd rfl h
  put_comm d f v g w h := by cases f <;> cases g <;> first | rfl | exact absurd rfl h

inductive GraphField where
  | blocks | declarations

namespace GraphField

def ofName? : String → Option GraphField
  | "blocks" => some .blocks
  | "variables" => some .declarations
  | _ => none

def content : GraphField → Content
  | .blocks => .list .chain
  | .declarations => .list .declaration

end GraphField

namespace GraphDraft

def has (d : GraphDraft) : GraphField → Bool
  | .blocks => d.blocks.isSome
  | .declarations => d.declarations.isSome

def put (d : GraphDraft) : (f : GraphField) → f.content.Part → GraphDraft
  | .blocks, v => { d with blocks := some v }
  | .declarations, v => { d with declarations := some v }

end GraphDraft

def graphShape : Shape Graph where
  Draft := GraphDraft
  Field := GraphField
  start := {}
  field? := GraphField.ofName?
  content := GraphField.content
  has := GraphDraft.has
  put := GraphDraft.put
  finish? d := (graphForm.finish d ⟨.missingField "", 0⟩).toOption
  has_put_self d f v := by cases f <;> rfl
  has_put_of_ne d f v g h := by cases f <;> cases g <;> first | rfl | exact absurd rfl h
  put_comm d f v g w h := by cases f <;> cases g <;> first | rfl | exact absurd rfl h

def Record.shape : (r : Record) → Shape r.Result
  | .graph => graphShape
  | .chain => chainShape
  | .slot => slotShape
  | .declaration => declarationShape

/-! ### Readers of objects -/

theorem readEntryField_eq (d : EntryDraft) (f : EntryField) (node : Node) :
    readEntryField d f node = do return d.put f (← f.content.read node) := by
  cases f with
  | kind | id | fields | comment | mutation =>
    rw [readEntryField]
    rfl
  | inputs | statements =>
    cases node with
    | array start nodes ending =>
      show (readSlots ending nodes >>= fun _ => pure _) = _
      rw [readSlots_eq start]
      rfl
    | _ => rfl
  | next =>
    cases node with
    | scalar start stop value =>
      rcases value with f | value
      · rfl
      · cases value <;> rfl
    | _ => rfl

theorem readSlotField_eq (d : SlotDraft) (f : SlotField) (node : Node) :
    readSlotField d f node = do return d.put f (← f.content.read node) := by
  cases f with
  | name =>
    rw [readSlotField]
    rfl
  | block | shadow =>
    cases node with
    | scalar start stop value =>
      rcases value with f | value
      · rfl
      · cases value <;> rfl
    | _ => rfl

theorem readEntryMembers_eq (stop : Nat) (members : List Member) :
    (readEntryMembers {} (.closed stop) members).toOption = chainShape.read? members := by
  refine chainShape.toOption_read (fun d members => readEntryMembers d (.closed stop) members)
    ?_ ?_ members
  · rintro ⟨_ | kind, _⟩ <;> rfl
  · intro (d : EntryDraft) key refused node members
    rw [readEntryMembers]
    refine bind_congr fun name => ?_
    dsimp only [chainShape]
    cases EntryField.ofName? name with
    | none => rfl
    | some f =>
      simp only [readEntryField_eq, bind_assoc, pure_bind]
      rfl

theorem readSlotMembers_eq (stop : Nat) (members : List Member) :
    (readSlotMembers {} (.closed stop) members).toOption = slotShape.read? members := by
  refine slotShape.toOption_read (fun d members => readSlotMembers d (.closed stop) members)
    ?_ ?_ members
  · rintro ⟨_ | name, _⟩ <;> rfl
  · intro (d : SlotDraft) key refused node members
    rw [readSlotMembers]
    refine bind_congr fun name => ?_
    dsimp only [slotShape]
    cases SlotField.ofName? name with
    | none => rfl
    | some f =>
      simp only [readSlotField_eq, bind_assoc, pure_bind]
      rfl

theorem declarationForm_lookup (name : String) : declarationForm.fields.lookup name =
    (DeclarationField.ofName? name).map fun f d node => do return d.put f (← f.content.read node) := by
  unfold DeclarationField.ofName?
  split
  · rfl
  · rfl
  · rfl
  · rename_i hname hid hkind
    have h : (name == "name") = false ∧ (name == "id") = false ∧ (name == "type") = false := by
      simpa using ⟨hname, hid, hkind⟩
    simp [declarationForm, List.lookup_cons, h]

theorem declarationForm_has {name : String} {f : DeclarationField}
    (h : DeclarationField.ofName? name = some f) (d : DeclarationDraft) :
    declarationForm.has d name = d.has f := by
  unfold DeclarationField.ofName? at h
  split at h <;> cases h <;> rfl

theorem graphForm_lookup (name : String) : graphForm.fields.lookup name =
    (GraphField.ofName? name).map fun f d node => do return d.put f (← f.content.read node) := by
  unfold GraphField.ofName?
  split
  · rfl
  · rfl
  · rename_i hblocks hdeclarations
    have h : (name == "blocks") = false ∧ (name == "variables") = false := by
      simpa using ⟨hblocks, hdeclarations⟩
    simp [graphForm, List.lookup_cons, h]

theorem graphForm_has {name : String} {f : GraphField} (h : GraphField.ofName? name = some f)
    (d : GraphDraft) : graphForm.has d name = d.has f := by
  unfold GraphField.ofName? at h
  split at h <;> cases h <;> rfl

theorem RecordForm.readMembers_eq {α : Type} {s : Shape α} {r : RecordForm s.Draft α}
    (hfields : ∀ name, r.fields.lookup name =
      (s.field? name).map fun f d node => do return s.put d f (← (s.content f).read node))
    (hhas : ∀ name f, s.field? name = some f → ∀ d, r.has d name = s.has d f)
    (hfinish : ∀ d f, (r.finish d f).toOption = s.finish? d) (stop : Nat) (members : List Member) :
    (r.readMembers s.start (.closed stop) members).toOption = s.read? members := by
  refine s.toOption_read (fun d members => r.readMembers d (.closed stop) members) ?_ ?_ members
  · exact fun d => hfinish d _
  · intro d key refused node members
    rw [RecordForm.readMembers]
    refine bind_congr fun name => ?_
    rw [hfields]
    cases hfield : s.field? name with
    | none => rfl
    | some f =>
      simp only [Option.map_some, hhas name f hfield, bind_assoc, pure_bind]

theorem Record.read_object (r : Record) (start stop : Nat) (members : List Member) :
    (r.read (.object start members (.closed stop))).toOption = r.shape.read? members := by
  cases r with
  | graph =>
    exact RecordForm.readMembers_eq (s := graphShape) graphForm_lookup (fun _ _ => graphForm_has)
      (fun _ _ => rfl) stop members
  | chain => exact readEntryMembers_eq stop members
  | slot => exact readSlotMembers_eq stop members
  | declaration =>
    refine RecordForm.readMembers_eq (s := declarationShape) declarationForm_lookup
      (fun _ _ => declarationForm_has) ?_ stop members
    rintro ⟨_ | name, _⟩ _ <;> rfl

end Blockwork
