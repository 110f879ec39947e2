import Blockwork.Proofs.Block.Induction
import Blockwork.Proofs.Graph.Records
import Blockwork.Proofs.Json.TreeOffsets

/-! Offsets of the faults in a graph. Readers of graphs take a tree apart in the order of the text,
and none of them finds a fault beyond it. -/

namespace Blockwork

open Json

variable {limit : Nat}

theorem endOfFields_within {α : Type} (left : List α) {ending : Ending} (h : ending.Within limit) :
    FailsWithin limit (endOfFields left ending) := by
  unfold endOfFields
  split
  · exact h.fullList
  · exact h.list

theorem tooManyFields_within {node : Node} (h : node.start < limit) :
    (tooManyFields node).offset ≤ limit := h

/-! ### Members and items in turn -/

section

variable {Draft Field α : Type} (readField : Draft → Field → Node → Except Fault Draft)

theorem inMembers_within (field? : String → Option Field) (has : Draft → String → Field → Bool)
    (read : Draft → List Member → Except Fault α) (hnil : ∀ d, FailsWithin limit (read d []))
    (hcons : ∀ d key refused node members, read d (⟨key, refused, node⟩ :: members) = do
      let name ← key
      match field? name with
      | none =>
        node.skip
        read d members
      | some f =>
        if has d name f then .error ⟨.duplicateField name, refused⟩
        else
          let d ← readField d f node
          read d members)
    {members : List Member} (h : MembersWithin limit members)
    (hfield : ∀ m ∈ members, ∀ name f, field? name = some f → ∀ d,
      FailsWithin limit (readField d f m.value)) (d : Draft) :
    FailsWithin limit (read d members) := by
  induction members generalizing d with
  | nil => exact hnil d
  | cons m rest ih =>
    obtain ⟨key, refused, node⟩ := m
    rw [List.forall_mem_cons] at hfield
    have hrest : ∀ d, FailsWithin limit (read d rest) := ih h.2 hfield.2
    rw [hcons]
    refine h.1.1.bind fun name _ => ?_
    split
    · exact (Node.skip_within h.1.2.2).bind fun _ _ => hrest d
    · split
      · exact .error h.1.2.1
      · exact (hfield.1 name _ ‹_› d).bind fun d _ => hrest d

theorem inItems_within (read : Draft → List Field → List Node → Except Fault α)
    (hnil : ∀ d left, FailsWithin limit (read d left []))
    (hfull : ∀ d node rest, read d [] (node :: rest) = .error (tooManyFields node))
    (hcons : ∀ d f left node rest, read d (f :: left) (node :: rest) = do
      let d ← readField d f node
      read d left rest)
    {items : List Node} (h : ItemsWithin limit items) {left : List Field}
    (hfield : ∀ node ∈ items, ∀ f ∈ left, ∀ d, FailsWithin limit (readField d f node))
    (d : Draft) : FailsWithin limit (read d left items) := by
  induction items generalizing d left with
  | nil => exact hnil d left
  | cons node rest ih =>
    rw [List.forall_mem_cons] at hfield
    cases left with
    | nil =>
      rw [hfull]
      exact .error (tooManyFields_within h.1.1)
    | cons f left =>
      have hrest : ∀ d, FailsWithin limit (read d left rest) := ih h.2 fun node hnode g hg =>
        hfield.2 node hnode g (List.mem_cons_of_mem f hg)
      rw [hcons]
      exact (hfield.1 f List.mem_cons_self d).bind fun d _ => hrest d

end

/-! ### Blocks and slots -/

section

variable {missing : Fault} (h : missing.offset ≤ limit)
include h

theorem entry_finish_within (d : EntryDraft) : FailsWithin limit (d.finish missing) := by
  unfold EntryDraft.finish
  split
  · exact .error h
  · exact .ok _

theorem slot_finish_within (d : SlotDraft) : FailsWithin limit (d.finish missing) := by
  unfold SlotDraft.finish
  split
  · exact .error h
  · exact .ok _

end

structure ReadsWithin (limit : Nat) (node : Node) : Prop where
  tree : node.Within limit
  chain : FailsWithin limit (readChain node)
  slot : FailsWithin limit (readSlot node)
  slots : FailsWithin limit (readList readSlot node)

namespace ReadsWithin

variable {node : Node} (h : ReadsWithin limit node)
include h

theorem link : FailsWithin limit (Content.link.read node) := by
  show FailsWithin limit (if node.isNull then _ else _)
  split
  · exact .ok _
  · exact h.chain

theorem entryField (d : EntryDraft) (field : EntryField) :
    FailsWithin limit (readEntryField d field node) := by
  rw [readEntryField_eq]
  refine FailsWithin.bind ?_ fun _ _ => .ok _
  cases field with
  | kind | id => exact readText_within h.tree
  | fields | mutation => exact readMap_within h.tree
  | inputs | statements => exact h.slots
  | comment => exact readText?_within h.tree
  | next => exact h.link

theorem slotField (d : SlotDraft) (field : SlotField) :
    FailsWithin limit (readSlotField d field node) := by
  rw [readSlotField_eq]
  refine FailsWithin.bind ?_ fun _ _ => .ok _
  cases field with
  | name => exact readText_within h.tree
  | block | shadow => exact h.link

end ReadsWithin

section

variable {members : List Member} {items : List Node} {ending : Ending}
  (hending : ending.Within limit)
include hending

theorem readEntryMembers_within (h : MembersWithin limit members)
    (hreads : ∀ m ∈ members, ReadsWithin limit m.value) (d : EntryDraft) :
    FailsWithin limit (readEntryMembers d ending members) := by
  refine inMembers_within readEntryField EntryField.ofName? (fun d _ f => d.has f)
    (fun d => readEntryMembers d ending) (fun d => ?_) (fun d key refused node members => ?_) h ?_ d
  · exact hending.object.bind fun _ _ => entry_finish_within hending.stop_le d
  · rw [readEntryMembers]
    refine bind_congr fun name => ?_
    cases EntryField.ofName? name <;> rfl
  · exact fun m hm _ f _ d => (hreads m hm).entryField d f

theorem readSlotMembers_within (h : MembersWithin limit members)
    (hreads : ∀ m ∈ members, ReadsWithin limit m.value) (d : SlotDraft) :
    FailsWithin limit (readSlotMembers d ending members) := by
  refine inMembers_within readSlotField SlotField.ofName? (fun d _ f => d.has f)
    (fun d => readSlotMembers d ending) (fun d => ?_) (fun d key refused node members => ?_) h ?_ d
  · exact hending.object.bind fun _ _ => slot_finish_within hending.stop_le d
  · rw [readSlotMembers]
    refine bind_congr fun name => ?_
    cases SlotField.ofName? name <;> rfl
  · exact fun m hm _ f _ d => (hreads m hm).slotField d f

theorem readEntryItems_within (h : ItemsWithin limit items)
    (hreads : ∀ node ∈ items, ReadsWithin limit node) (d : EntryDraft) (left : List EntryField) :
    FailsWithin limit (readEntryItems d ending left items) := by
  refine inItems_within readEntryField (fun d => readEntryItems d ending) (fun d left => ?_)
    (fun _ _ _ => rfl) (fun _ _ _ _ _ => rfl) h ?_ d
  · rw [readEntryItems]
    exact (endOfFields_within left hending).bind fun _ _ => entry_finish_within hending.stop_le d
  · exact fun node hnode f _ d => (hreads node hnode).entryField d f

theorem readSlotItems_within (h : ItemsWithin limit items)
    (hreads : ∀ node ∈ items, ReadsWithin limit node) (d : SlotDraft) (left : List SlotField) :
    FailsWithin limit (readSlotItems d ending left items) := by
  refine inItems_within readSlotField (fun d => readSlotItems d ending) (fun d left => ?_)
    (fun _ _ _ => rfl) (fun _ _ _ _ _ => rfl) h ?_ d
  · rw [readSlotItems]
    exact (endOfFields_within left hending).bind fun _ _ => slot_finish_within hending.stop_le d
  · exact fun node hnode f _ d => (hreads node hnode).slotField d f

end

mutual

theorem readsWithin : ∀ node : Node, node.Within limit → ReadsWithin limit node
  | .scalar _ _ _, h | .broken _ _ _, h =>
    ⟨h, .error (mismatch_within h _), .error (mismatch_within h _), .error (mismatch_within h _)⟩
  | .array _ items _, h =>
    have hreads := itemsReadWithin items h.2.1
    ⟨h, readEntryItems_within h.2.2 h.2.1 hreads {} _, readSlotItems_within h.2.2 h.2.1 hreads {} _,
      (FailsWithin.mapM fun node hnode => (hreads node hnode).slot).bind fun _ _ =>
        h.2.2.list.bind fun _ _ => .ok _⟩
  | .object _ members _, h =>
    have hreads := membersReadWithin members h.2.1
    ⟨h, readEntryMembers_within h.2.2 h.2.1 hreads {}, readSlotMembers_within h.2.2 h.2.1 hreads {},
      .error (mismatch_within h _)⟩

theorem itemsReadWithin : ∀ items : List Node, ItemsWithin limit items →
    ∀ node ∈ items, ReadsWithin limit node
  | [], _ => fun _ hnode => absurd hnode List.not_mem_nil
  | node :: rest, h =>
    List.forall_mem_cons.2 ⟨readsWithin node h.1.2, itemsReadWithin rest h.2⟩

theorem membersReadWithin : ∀ members : List Member, MembersWithin limit members →
    ∀ m ∈ members, ReadsWithin limit m.value
  | [], _ => fun _ hm => absurd hm List.not_mem_nil
  | ⟨_, _, node⟩ :: rest, h =>
    List.forall_mem_cons.2 ⟨readsWithin node h.1.2.2, membersReadWithin rest h.2⟩

end

/-! ### Lists and records -/

def StaysWithin {α : Type} (limit : Nat) (read : Node → Except Fault α) : Prop :=
  ∀ node : Node, node.Within limit → FailsWithin limit (read node)

theorem readList_within {α : Type} {item : Node → Except Fault α} (hitem : StaysWithin limit item) :
    StaysWithin limit (readList item) := by
  intro node h
  unfold readList
  split
  · refine FailsWithin.bind (.mapM fun node hnode => ?_) fun _ _ =>
      h.2.2.list.bind fun _ _ => .ok _
    exact hitem node (itemsWithin_iff.1 h.2.1 node hnode).2
  · exact .error (mismatch_within h _)

section

variable {Draft α : Type} {r : RecordForm Draft α}

structure RecordForm.Within (limit : Nat) (r : RecordForm Draft α) : Prop where
  field : ∀ field ∈ r.fields, ∀ d, StaysWithin limit (field.2 d)
  finish : ∀ d missing, missing.offset ≤ limit → FailsWithin limit (r.finish d missing)

namespace RecordForm.Within

variable (hr : r.Within limit)
include hr

theorem readMembers {members : List Member} {ending : Ending} (h : MembersWithin limit members)
    (hending : ending.Within limit) (d : Draft) :
    FailsWithin limit (r.readMembers d ending members) := by
  refine inMembers_within (fun d field node => field d node) (fun name => r.fields.lookup name)
    (fun d name _ => r.has d name) (fun d => r.readMembers d ending) (fun d => ?_)
    (fun d key refused node members => ?_) h (fun m hm name field hlookup d => ?_) d
  · exact hending.object.bind fun _ _ => hr.finish d _ hending.stop_le
  · rw [RecordForm.readMembers]
    refine bind_congr fun name => ?_
    cases r.fields.lookup name <;> rfl
  · have hvalue := (membersWithin_iff.1 h m hm).2.2
    exact hr.field (name, field) (mem_of_lookup hlookup) d m.value hvalue

theorem readItems {items : List Node} {ending : Ending} (h : ItemsWithin limit items)
    (hending : ending.Within limit) (d : Draft) :
    FailsWithin limit (r.readItems d ending r.fields items) := by
  refine inItems_within (fun d field node => field.2 d node) (fun d => r.readItems d ending)
    (fun d left => ?_) (fun _ _ _ => rfl) (fun _ _ _ _ _ => rfl) h
    (fun node hnode field hmem d => ?_) d
  · rw [RecordForm.readItems]
    exact (endOfFields_within left hending).bind fun _ _ => hr.finish d _ hending.stop_le
  · exact hr.field field hmem d node (itemsWithin_iff.1 h node hnode).2

theorem read (start : Draft) : StaysWithin limit (r.read start) := by
  intro node h
  unfold RecordForm.read
  split
  · exact hr.readMembers h.2.1 h.2.2 start
  · exact hr.readItems h.2.1 h.2.2 start
  · exact .error (mismatch_within h _)

end RecordForm.Within

end

theorem declarationForm_within : declarationForm.Within limit where
  field := by
    simp only [declarationForm, List.forall_mem_cons]
    refine ⟨fun d node h => ?_, fun d node h => ?_, fun d node h => ?_,
      fun _ h => absurd h List.not_mem_nil⟩
    · exact (readText_within h).bind fun _ _ => .ok _
    · exact (readText?_within h).bind fun _ _ => .ok _
    · exact (readText?_within h).bind fun _ _ => .ok _
  finish d missing h := by
    unfold declarationForm
    dsimp only
    split
    · exact .error h
    · exact .ok _

theorem graphForm_within : graphForm.Within limit where
  field := by
    simp only [graphForm, List.forall_mem_cons]
    refine ⟨fun d node h => ?_, fun d node h => ?_, fun _ h => absurd h List.not_mem_nil⟩
    · have hchains : StaysWithin limit (readList readChain) :=
        readList_within fun node h => (readsWithin node h).chain
      exact (hchains node h).bind fun _ _ => .ok _
    · exact (readList_within (declarationForm_within.read {}) node h).bind fun _ _ => .ok _
  finish _ _ _ := .ok _

theorem graph_read_within (text : String) : FailsWithin text.utf8ByteSize (Graph.read text) := by
  have hdocument := Document.ofText_within text
  exact (graphForm_within.read {} _ hdocument.root).bind fun _ _ =>
    (FailsWithin.succeedUnless hdocument.trailing).bind fun _ _ => .ok _

end Blockwork
