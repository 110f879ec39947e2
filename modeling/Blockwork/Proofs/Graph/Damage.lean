import Blockwork.Proofs.Block.Induction
import Blockwork.Proofs.Graph.Records
import Blockwork.Proofs.Json.Damage

/-! Graphs in damaged texts. Readers of graphs take a tree apart in the order of the text, so what they
find wrong before the damage is wrong in every text that begins alike. -/

namespace Blockwork

open Json

variable {damaged : Bool}

/-! ### Members and items in turn -/

section

variable {Draft Field α : Type} (readField : Draft → Field → Node → Except Fault Draft)

theorem inMembers_foretells (field? : String → Option Field) (has : Draft → String → Field → Bool)
    (read : Ending → Draft → List Member → Except Fault α) (finish : Ending → Draft → Except Fault α)
    (hfinish : ∀ ending d, Foretells false (finish ending d) (finish ending d))
    (hnil : ∀ ending d, read ending d [] = do
      succeedUnless ending.objectFault?
      finish ending d)
    (hcons : ∀ ending d key refused node members, read ending d (⟨key, refused, node⟩ :: members) = do
      let name ← key
      match field? name with
      | none =>
        node.skip
        read ending d members
      | some f =>
        if has d name f then .error ⟨.duplicateField name, refused⟩
        else
          let d ← readField d f node
          read ending d members)
    {ending ending' : Ending} {members members' : List Member}
    (h : MembersAlike ending ending' damaged members members')
    (hfield : ∀ m ∈ members, ∀ {damaged : Bool} {node'}, Node.Alike damaged m.value node' →
      ∀ name f, field? name = some f → ∀ d,
        Foretells damaged (readField d f m.value) (readField d f node')) (d : Draft) :
    Foretells damaged (read ending d members) (read ending' d members') := by
  induction members generalizing members' d with
  | nil =>
    cases h with
    | closed stop =>
      rw [hnil]
      exact hfinish _ d
    | cut h =>
      obtain ⟨f, hf, hfails⟩ := h.fails List.mem_cons_self
      rw [hnil, hfails]
      exact .damage hf _
  | cons m rest ih =>
    rw [List.forall_mem_cons] at hfield
    cases h with
    | broken hkey =>
      rw [hcons]
      exact .damage hkey _
    | inside hkey hrefused h =>
      rw [hcons, hcons]
      refine (Foretells.refuses hkey).bind fun name _ => ?_
      split
      · exact h.skip.bind_damaged
      · -- A key that is there twice is refused before its value is looked at.
        split
        · exact .shape rfl (by rfl) hrefused true
        · exact (hfield.1 h name _ ‹_› d).bind_damaged
    | cons hkey h hrest =>
      rw [hcons, hcons]
      refine (Foretells.refuses hkey).bind fun name _ => ?_
      split
      · exact h.skip.bind fun _ _ => ih hrest hfield.2 d
      · split
        · exact .shape rfl rfl (Nat.le_succ _) damaged
        · exact (hfield.1 h name _ ‹_› d).bind fun d _ => ih hrest hfield.2 d

theorem inItems_foretells (read : Ending → Draft → List Field → List Node → Except Fault α)
    (finish : Ending → Draft → Except Fault α)
    (hfinish : ∀ ending d, Foretells false (finish ending d) (finish ending d))
    (hnil : ∀ ending d left, read ending d left [] = do
      endOfFields left ending
      finish ending d)
    (hfull : ∀ ending d node rest, read ending d [] (node :: rest) = .error (tooManyFields node))
    (hcons : ∀ ending d f left node rest, read ending d (f :: left) (node :: rest) = do
      let d ← readField d f node
      read ending d left rest)
    {ending ending' : Ending} {items items' : List Node} {left : List Field}
    (h : ItemsAlike ending ending' damaged items items')
    (hbroken : ∀ f ∈ left, ∀ d start read skipped,
      readField d f (.broken start read skipped) = .error read)
    (hfield : ∀ node ∈ items, ∀ f ∈ left, ∀ {damaged : Bool} {node'}, Node.Alike damaged node node' →
      ∀ d, Foretells damaged (readField d f node) (readField d f node')) (d : Draft) :
    Foretells damaged (read ending d left items) (read ending' d left items') := by
  induction items generalizing items' left d with
  | nil =>
    cases h with
    | closed stop =>
      rw [hnil]
      have hend : endOfFields left (.closed stop) = .ok () := by
        unfold endOfFields
        split <;> rfl
      rw [hend]
      exact hfinish _ d
    | cut h =>
      obtain ⟨f, hf, hfails⟩ : ∃ f, f.cause.isSyntax = true ∧ endOfFields left ending = .error f := by
        unfold endOfFields
        split <;> exact h.fails (by simp)
      rw [hnil, hfails]
      exact .damage hf _
  | cons node rest ih =>
    rw [List.forall_mem_cons] at hfield
    cases left with
    | nil =>
      rw [hfull]
      exact .refusal rfl damaged _
    | cons f left =>
      cases h with
      | broken hread =>
        rw [hcons, hbroken f List.mem_cons_self]
        exact .damage hread _
      | inside h =>
        rw [hcons, hcons]
        exact (hfield.1 f List.mem_cons_self h d).bind_damaged
      | cons h hrest =>
        rw [hcons, hcons]
        exact (hfield.1 f List.mem_cons_self h d).bind fun d _ => ih hrest
          (fun g hg => hbroken g (List.mem_cons_of_mem f hg))
          (fun node hnode g hg => hfield.2 node hnode g (List.mem_cons_of_mem f hg)) d

theorem mapM_foretells {β : Type} {item : Node → Except Fault α}
    (hbroken : ∀ start read skipped, item (.broken start read skipped) = .error read)
    {ending ending' : Ending} {items items' : List Node}
    (h : ItemsAlike ending ending' damaged items items')
    (hitem : ∀ node ∈ items, ∀ {damaged : Bool} {node'}, Node.Alike damaged node node' →
      Foretells damaged (item node) (item node')) (g : List α → β) :
    Foretells damaged
      (do let items ← items.mapM item; succeedUnless ending.listFault?; return g items)
      (do let items ← items'.mapM item; succeedUnless ending'.listFault?; return g items) := by
  induction items generalizing items' g with
  | nil =>
    cases h with
    | closed stop => exact .ok (g [])
    | cut h =>
      obtain ⟨f, hf, hfails⟩ := h.fails List.mem_cons_self
      rw [List.mapM_nil, hfails]
      exact .damage hf _
  | cons node rest ih =>
    rw [List.forall_mem_cons] at hitem
    cases h with
    | broken hread =>
      rw [List.mapM_cons, hbroken]
      exact .damage hread _
    | inside h =>
      simp only [List.mapM_cons, bind_assoc]
      exact (hitem.1 h).bind_damaged
    | cons h hrest =>
      simp only [List.mapM_cons, bind_assoc, pure_bind]
      exact (hitem.1 h).bind fun a _ => ih hrest hitem.2 fun as => g (a :: as)

end

/-! ### Blocks and slots -/

theorem entry_finish_foretells (d : EntryDraft) {missing : Fault}
    (h : missing.cause.isSyntax = false) :
    Foretells false (d.finish missing) (d.finish missing) := by
  unfold EntryDraft.finish
  split
  · exact .shape h rfl (Nat.le_succ _) false
  · exact .ok _

theorem slot_finish_foretells (d : SlotDraft) {missing : Fault}
    (h : missing.cause.isSyntax = false) :
    Foretells false (d.finish missing) (d.finish missing) := by
  unfold SlotDraft.finish
  split
  · exact .shape h rfl (Nat.le_succ _) false
  · exact .ok _

structure ReadsAlike (node : Node) : Prop where
  chain {damaged : Bool} {node' : Node} (h : Node.Alike damaged node node') :
    Foretells damaged (readChain node) (readChain node')
  slot {damaged : Bool} {node' : Node} (h : Node.Alike damaged node node') :
    Foretells damaged (readSlot node) (readSlot node')
  slots {damaged : Bool} {node' : Node} (h : Node.Alike damaged node node') :
    Foretells damaged (readList readSlot node) (readList readSlot node')

namespace ReadsAlike

variable {node node' : Node} (hreads : ReadsAlike node) (h : Node.Alike damaged node node')
include hreads h

theorem link : Foretells damaged (Content.link.read node) (Content.link.read node') := by
  have hchain := hreads.chain h
  show Foretells damaged (if node.isNull then _ else _) (if node'.isNull then _ else _)
  cases h with
  | scalar =>
    split
    · exact .ok []
    · exact hchain
  | array | object => exact hchain
  | broken hread => exact .damage hread _

theorem entryField (d : EntryDraft) (f : EntryField) :
    Foretells damaged (readEntryField d f node) (readEntryField d f node') := by
  rw [readEntryField_eq, readEntryField_eq]
  refine Foretells.map ?_ _
  cases f with
  | kind | id => exact readText_foretells h
  | fields | mutation => exact readMap_foretells h
  | inputs | statements => exact hreads.slots h
  | comment => exact readText?_foretells h
  | next => exact hreads.link h

theorem slotField (d : SlotDraft) (f : SlotField) :
    Foretells damaged (readSlotField d f node) (readSlotField d f node') := by
  rw [readSlotField_eq, readSlotField_eq]
  refine Foretells.map ?_ _
  cases f with
  | name => exact readText_foretells h
  | block | shadow => exact hreads.link h

end ReadsAlike

section

variable {members members' : List Member} {items items' : List Node} {ending ending' : Ending}

theorem readEntryMembers_foretells (h : MembersAlike ending ending' damaged members members')
    (hreads : ∀ m ∈ members, ReadsAlike m.value) (d : EntryDraft) :
    Foretells damaged (readEntryMembers d ending members) (readEntryMembers d ending' members') := by
  refine inMembers_foretells readEntryField EntryField.ofName? (fun d _ f => d.has f)
    (fun ending d => readEntryMembers d ending) (fun ending d => d.finish ⟨_, ending.stop⟩)
    (fun _ d => entry_finish_foretells d rfl) (fun _ _ => rfl)
    (fun ending d key refused node members => ?_) h ?_ d
  · rw [readEntryMembers]
    refine bind_congr fun name => ?_
    cases EntryField.ofName? name <;> rfl
  · exact fun m hm _ _ h _ f _ d => (hreads m hm).entryField h d f

theorem readSlotMembers_foretells (h : MembersAlike ending ending' damaged members members')
    (hreads : ∀ m ∈ members, ReadsAlike m.value) (d : SlotDraft) :
    Foretells damaged (readSlotMembers d ending members) (readSlotMembers d ending' members') := by
  refine inMembers_foretells readSlotField SlotField.ofName? (fun d _ f => d.has f)
    (fun ending d => readSlotMembers d ending) (fun ending d => d.finish ⟨_, ending.stop⟩)
    (fun _ d => slot_finish_foretells d rfl) (fun _ _ => rfl)
    (fun ending d key refused node members => ?_) h ?_ d
  · rw [readSlotMembers]
    refine bind_congr fun name => ?_
    cases SlotField.ofName? name <;> rfl
  · exact fun m hm _ _ h _ f _ d => (hreads m hm).slotField h d f

theorem readEntryItems_foretells (h : ItemsAlike ending ending' damaged items items')
    (hreads : ∀ node ∈ items, ReadsAlike node) (d : EntryDraft) (left : List EntryField) :
    Foretells damaged (readEntryItems d ending left items) (readEntryItems d ending' left items') := by
  refine inItems_foretells readEntryField (fun ending d => readEntryItems d ending)
    (fun ending d => d.finish ⟨_, ending.stop⟩) (fun _ d => entry_finish_foretells d rfl)
    (fun _ _ _ => rfl) (fun _ _ _ _ => rfl) (fun _ _ _ _ _ _ => rfl) h (fun f _ d _ _ _ => ?_) ?_ d
  · cases f <;> rfl
  · exact fun node hnode f _ _ _ h d => (hreads node hnode).entryField h d f

theorem readSlotItems_foretells (h : ItemsAlike ending ending' damaged items items')
    (hreads : ∀ node ∈ items, ReadsAlike node) (d : SlotDraft) (left : List SlotField) :
    Foretells damaged (readSlotItems d ending left items) (readSlotItems d ending' left items') := by
  refine inItems_foretells readSlotField (fun ending d => readSlotItems d ending)
    (fun ending d => d.finish ⟨_, ending.stop⟩) (fun _ d => slot_finish_foretells d rfl)
    (fun _ _ _ => rfl) (fun _ _ _ _ => rfl) (fun _ _ _ _ _ _ => rfl) h (fun f _ d _ _ _ => ?_) ?_ d
  · cases f <;> rfl
  · exact fun node hnode f _ _ _ h d => (hreads node hnode).slotField h d f

end

mutual

/-- Chains nest through the values of members and the items of arrays, whatever the text is. -/
theorem readsAlike : ∀ node : Node, ReadsAlike node
  | .scalar _ _ _ =>
    { chain h := by cases h with | scalar h => exact mismatch_foretells (.scalar h) _
      slot h := by cases h with | scalar h => exact mismatch_foretells (.scalar h) _
      slots h := by cases h with | scalar h => exact mismatch_foretells (.scalar h) _ }
  | .broken _ _ _ =>
    { chain h := by cases h with | broken hread => exact .damage hread _
      slot h := by cases h with | broken hread => exact .damage hread _
      slots h := by cases h with | broken hread => exact .damage hread _ }
  | .array _ items _ =>
    have hreads := itemsReadAlike items
    { chain h := by
        cases h with
        | array h => exact readEntryItems_foretells h hreads {} _
      slot h := by
        cases h with
        | array h => exact readSlotItems_foretells h hreads {} _
      slots h := by
        cases h with
        | array h =>
          exact mapM_foretells (fun _ _ _ => rfl) h (fun node hnode _ _ h => (hreads node hnode).slot h)
            id }
  | .object _ members _ =>
    have hreads := membersReadAlike members
    { chain h := by
        cases h with
        | object h => exact readEntryMembers_foretells h hreads {}
      slot h := by
        cases h with
        | object h => exact readSlotMembers_foretells h hreads {}
      slots h := by
        cases h with
        | object h => exact mismatch_foretells (.object h) _ }

theorem itemsReadAlike : ∀ items : List Node, ∀ node ∈ items, ReadsAlike node
  | [] => fun _ hnode => absurd hnode List.not_mem_nil
  | node :: rest => List.forall_mem_cons.2 ⟨readsAlike node, itemsReadAlike rest⟩

theorem membersReadAlike : ∀ members : List Member, ∀ m ∈ members, ReadsAlike m.value
  | [] => fun _ hm => absurd hm List.not_mem_nil
  | ⟨_, _, node⟩ :: rest => List.forall_mem_cons.2 ⟨readsAlike node, membersReadAlike rest⟩

end

/-! ### Lists and records -/

/-- A reader that fails on damage, and until then on nothing that a text which begins alike would not
fail on too. -/
structure ForetellsAll {α : Type} (read : Node → Except Fault α) : Prop where
  broken (start : Nat) (fault skipped : Fault) : read (.broken start fault skipped) = .error fault
  alike {damaged : Bool} {node node' : Node} (h : Node.Alike damaged node node') :
    Foretells damaged (read node) (read node')

theorem readList_foretells {α : Type} {item : Node → Except Fault α} (hitem : ForetellsAll item) :
    ForetellsAll (readList item) where
  broken _ _ _ := rfl
  alike {damaged node node'} h := by
    have hmismatch : Foretells damaged (.error (node.mismatch "a sequence") : Except Fault (List α))
        (.error (node'.mismatch "a sequence")) := mismatch_foretells h _
    cases h with
    | array h => exact mapM_foretells hitem.broken h (fun _ _ _ _ h => hitem.alike h) id
    | scalar | object => exact hmismatch
    | broken hread => exact .damage hread _

section

variable {Draft α : Type} {r : RecordForm Draft α}

structure RecordForm.Foretells (r : RecordForm Draft α) : Prop where
  field : ∀ field ∈ r.fields, ∀ d, ForetellsAll (field.2 d)
  finish : ∀ d missing, missing.cause.isSyntax = false →
    Json.Foretells false (r.finish d missing) (r.finish d missing)

namespace RecordForm.Foretells

variable (hr : r.Foretells) {ending ending' : Ending}
include hr

theorem readMembers {members members' : List Member}
    (h : MembersAlike ending ending' damaged members members') (d : Draft) :
    Json.Foretells damaged (r.readMembers d ending members) (r.readMembers d ending' members') := by
  refine inMembers_foretells (fun d field node => field d node) (fun name => r.fields.lookup name)
    (fun d name _ => r.has d name) (fun ending d => r.readMembers d ending)
    (fun ending d => r.finish d ⟨_, ending.stop⟩) (fun _ d => hr.finish d _ rfl) (fun _ _ => rfl)
    (fun ending d key refused node members => ?_) h (fun m _ _ _ h name field hlookup d => ?_) d
  · rw [RecordForm.readMembers]
    refine bind_congr fun name => ?_
    cases r.fields.lookup name <;> rfl
  · exact (hr.field (name, field) (mem_of_lookup hlookup) d).alike h

theorem readItems {items items' : List Node} (h : ItemsAlike ending ending' damaged items items')
    (d : Draft) : Json.Foretells damaged (r.readItems d ending r.fields items)
      (r.readItems d ending' r.fields items') := by
  refine inItems_foretells (fun d field node => field.2 d node) (fun ending d => r.readItems d ending)
    (fun ending d => r.finish d ⟨.tooShort 0
      (r.name ++ " with " ++ Nat.repr r.fields.length ++ " elements"), ending.stop⟩)
    (fun _ d => hr.finish d _ rfl) (fun _ _ _ => by rw [RecordForm.readItems])
    (fun _ _ _ _ => rfl) (fun _ _ _ _ _ _ => rfl) h (fun field hmem d => (hr.field field hmem d).broken)
    (fun _ _ field hmem _ _ h d => (hr.field field hmem d).alike h) d

theorem read (start : Draft) : ForetellsAll (r.read start) where
  broken _ _ _ := rfl
  alike {damaged node node'} h := by
    have hmismatch : Json.Foretells damaged (.error (node.mismatch r.name) : Except Fault α)
        (.error (node'.mismatch r.name)) := mismatch_foretells h _
    cases h with
    | object h => exact hr.readMembers h start
    | array h => exact hr.readItems h start
    | scalar => exact hmismatch
    | broken hread => exact .damage hread _

end RecordForm.Foretells

end

theorem ForetellsAll.into {α Draft : Type} {read : Node → Except Fault α} (h : ForetellsAll read)
    (put : α → Draft) : ForetellsAll fun node => do return put (← read node) where
  broken start fault skipped := by rw [h.broken]; rfl
  alike h' := (h.alike h').map put

theorem readText_foretellsAll : ForetellsAll Node.readText := ⟨fun _ _ _ => rfl, readText_foretells⟩

theorem readText?_foretellsAll : ForetellsAll Node.readText? := ⟨fun _ _ _ => rfl, readText?_foretells⟩

theorem declarationForm_foretells : declarationForm.Foretells where
  field := by
    simp only [declarationForm, List.forall_mem_cons]
    exact ⟨fun d => readText_foretellsAll.into _, fun d => readText?_foretellsAll.into _,
      fun d => readText?_foretellsAll.into _, fun _ h => absurd h List.not_mem_nil⟩
  finish d missing h := by
    unfold declarationForm
    dsimp only
    split
    · exact .shape h rfl (Nat.le_succ _) false
    · exact .ok _

theorem graphForm_foretells : graphForm.Foretells where
  field := by
    have hchain : ForetellsAll readChain := ⟨fun _ _ _ => rfl, fun h => (readsAlike _).chain h⟩
    simp only [graphForm, List.forall_mem_cons]
    exact ⟨fun d => (readList_foretells hchain).into _,
      fun d => (readList_foretells (declarationForm_foretells.read {})).into _,
      fun _ h => absurd h List.not_mem_nil⟩
  finish _ _ _ := .ok _

end Blockwork
