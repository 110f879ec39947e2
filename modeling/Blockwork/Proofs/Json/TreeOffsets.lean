import Blockwork.Proofs.Json.Offsets

/-! Offsets in the tree of a text. All of them lie in the text, whether it is well-formed or breaks
off, and every item of an array begins before its end. So no reader of the tree finds a fault beyond
it. -/

namespace Blockwork.Json

variable {limit : Nat}

/-! ### Trees -/

def Ending.Within (limit : Nat) : Ending → Prop
  | .closed stop | .cut stop | .cutAfterComma stop => stop ≤ limit
  | .commaBeforeClose start | .noComma start | .noKey start => start < limit
  | .unread => True

mutual

def Node.Within (limit : Nat) : Node → Prop
  | .scalar _ stop value => stop ≤ limit ∧ FailsWithin limit value
  | .array start items ending => start ≤ limit ∧ ItemsWithin limit items ∧ ending.Within limit
  | .object start members ending =>
    start ≤ limit ∧ MembersWithin limit members ∧ ending.Within limit
  | .broken _ read skipped => read.offset ≤ limit ∧ skipped.offset ≤ limit

/-- A broken value may stand at the end of the text, but it is no item then. -/
def ItemsWithin (limit : Nat) : List Node → Prop
  | [] => True
  | node :: rest => (node.start < limit ∧ node.Within limit) ∧ ItemsWithin limit rest

def MembersWithin (limit : Nat) : List Member → Prop
  | [] => True
  | ⟨key, refused, node⟩ :: rest =>
    (FailsWithin limit key ∧ refused ≤ limit ∧ node.Within limit) ∧ MembersWithin limit rest

end

theorem itemsWithin_iff {items : List Node} :
    ItemsWithin limit items ↔ ∀ node ∈ items, node.start < limit ∧ node.Within limit := by
  induction items with
  | nil => simp [ItemsWithin]
  | cons node rest ih => rw [ItemsWithin, ih, List.forall_mem_cons]

theorem membersWithin_iff {members : List Member} : MembersWithin limit members ↔
    ∀ m ∈ members, FailsWithin limit m.key ∧ m.refused ≤ limit ∧ m.value.Within limit := by
  induction members with
  | nil => simp [MembersWithin]
  | cons m rest ih =>
    obtain ⟨key, refused, node⟩ := m
    rw [MembersWithin, ih, List.forall_mem_cons]

namespace Ending.Within

variable {ending : Ending}

theorem failsWithin (h : ending.Within limit) {fault : Option Fault}
    (hfault : fault ∈ [ending.listFault?, ending.skippedListFault?, ending.fullListFault?,
      ending.objectFault?, ending.skippedObjectFault?]) :
    FailsWithin limit (succeedUnless fault) := by
  refine .succeedUnless fun f hf => ?_
  have hend : f.offset ≤ limit := by
    simp only [List.mem_cons, List.not_mem_nil, or_false] at hfault
    cases ending <;> rcases hfault with rfl | rfl | rfl | rfl | rfl <;> cases hf <;> exact h
  exact hend

variable (h : ending.Within limit)
include h

/-! Whoever reads or skips the value finds what is wrong with its end within the text. -/

theorem list : FailsWithin limit (succeedUnless ending.listFault?) := h.failsWithin (by simp)

theorem skippedList : FailsWithin limit (succeedUnless ending.skippedListFault?) :=
  h.failsWithin (by simp)

theorem fullList : FailsWithin limit (succeedUnless ending.fullListFault?) :=
  h.failsWithin (by simp)

theorem object : FailsWithin limit (succeedUnless ending.objectFault?) := h.failsWithin (by simp)

theorem skippedObject : FailsWithin limit (succeedUnless ending.skippedObjectFault?) :=
  h.failsWithin (by simp)

theorem stop_le : ending.stop ≤ limit := by
  cases ending with
  | closed stop => exact h
  | _ => exact Nat.zero_le _

end Ending.Within

/-! ### Frames -/

def Frame.Within (limit : Nat) : Frame → Prop
  | .array start items => start < limit ∧ ItemsWithin limit items
  | .object start members => start < limit ∧ MembersWithin limit members
  | .member start members key refused =>
    start < limit ∧ MembersWithin limit members ∧ FailsWithin limit key ∧ refused ≤ limit

def Frame.Takes (limit : Nat) (node : Node) : Frame → Prop
  | .array .. => node.start < limit
  | _ => True

theorem Frame.takes_of_lt {node : Node} (h : node.start < limit) (frame : Frame) :
    frame.Takes limit node := by
  cases frame with
  | array => exact h
  | _ => trivial

theorem Frame.Within.push {frame : Frame} {node : Node} (h : frame.Within limit)
    (hnode : node.Within limit) (htakes : frame.Takes limit node) :
    (frame.push node).Within limit := by
  cases frame with
  | array start items => exact ⟨h.1, ⟨htakes, hnode⟩, h.2⟩
  | object start members => exact h
  | member start members key refused => exact ⟨h.1, ⟨h.2.2.1, h.2.2.2, hnode⟩, h.2.1⟩

theorem Frame.Within.close {frame : Frame} (h : frame.Within limit) (ending : Ending)
    (hending : ending.Within limit) :
    (frame.close ending).start < limit ∧ (frame.close ending).Within limit := by
  have hmembers : ∀ members, MembersWithin limit members → MembersWithin limit members.reverse :=
    fun members hm => by simpa [membersWithin_iff] using hm
  cases frame with
  | array start items =>
    have hitems : ItemsWithin limit items.reverse := by simpa [itemsWithin_iff] using h.2
    exact ⟨h.1, h.1.le, hitems, hending⟩
  | object start members => exact ⟨h.1, h.1.le, hmembers _ h.2, hending⟩
  | member start members => exact ⟨h.1, h.1.le, hmembers _ h.2.1, hending⟩

/-- Only the innermost frame gets the value itself; the frames around it get whole arrays and
objects. -/
theorem unwind_within {stack : List Frame} {node : Node}
    (hstack : ∀ frame ∈ stack, frame.Within limit) (hnode : node.Within limit)
    (htakes : ∀ frame ∈ stack.head?, frame.Takes limit node) : (node.unwind stack).Within limit := by
  induction stack generalizing node with
  | nil => exact hnode
  | cons frame outer ih =>
    rw [List.forall_mem_cons] at hstack
    have hpush := hstack.1.push hnode (htakes frame rfl)
    obtain ⟨hstart, hclose⟩ := hpush.close .unread trivial
    exact ih hstack.2 hclose fun outer _ => outer.takes_of_lt hstart

/-! ### Documents -/

structure Document.Within (limit : Nat) (d : Document) : Prop where
  root : d.root.Within limit
  trailing : ∀ f ∈ d.trailing, f.offset ≤ limit

namespace Document

variable {stack : List Frame}

theorem broken_within (hstack : ∀ frame ∈ stack, frame.Within limit) {start : Nat}
    {read skipped : Fault} (hread : read.offset ≤ limit) (hskipped : skipped.offset ≤ limit)
    (htakes : ∀ frame ∈ stack.head?, frame.Takes limit (.broken start read skipped)) :
    (broken stack start read skipped).Within limit :=
  ⟨unwind_within hstack ⟨hread, hskipped⟩ htakes, fun _ hf => nomatch hf⟩

theorem broken_within_of_lt (hstack : ∀ frame ∈ stack, frame.Within limit) {start : Nat}
    {read skipped : Fault} (hread : read.offset ≤ limit) (hskipped : skipped.offset ≤ limit)
    (hstart : start < limit) : (broken stack start read skipped).Within limit :=
  broken_within hstack hread hskipped fun frame _ => frame.takes_of_lt hstart

theorem breakOff_within (hstack : ∀ frame ∈ stack, frame.Within limit) {ending : Ending}
    (hending : ending.Within limit) : (breakOff stack ending).Within limit := by
  cases stack with
  | nil => exact ⟨⟨Nat.zero_le _, Nat.zero_le _⟩, fun _ hf => nomatch hf⟩
  | cons frame outer =>
    rw [List.forall_mem_cons] at hstack
    obtain ⟨hstart, hclose⟩ := hstack.1.close ending hending
    exact ⟨unwind_within hstack.2 hclose fun outer _ => outer.takes_of_lt hstart,
      fun _ hf => nomatch hf⟩

/-- The open frames and what may come next. A value that is no item is wanted only at the beginning
and behind a key, never in an array. -/
structure Open (limit : Nat) (want : Want) (stack : List Frame) : Prop where
  frames : ∀ frame ∈ stack, frame.Within limit
  key : ∀ k, want = .colon k → FailsWithin limit k
  value : want = .value → ∀ frame ∈ stack.head?, ∀ node, frame.Takes limit node

theorem Open.of_frames {want : Want} (hcolon : ∀ k, want ≠ .colon k) (hvalue : want ≠ .value)
    (hstack : ∀ frame ∈ stack, frame.Within limit) : Open limit want stack :=
  ⟨hstack, fun k h => absurd h (hcolon k), fun h => absurd h hvalue⟩

theorem atEnd_within {want : Want} (h : Open limit want stack) :
    (atEnd limit stack want).Within limit := by
  cases want with
  | value =>
    exact broken_within h.frames le_rfl le_rfl fun frame hframe => h.value rfl frame hframe _
  | colon key =>
    rcases stack with _ | ⟨_ | ⟨start, members⟩ | _, outer⟩
    case cons.object =>
      have hframes := List.forall_mem_cons.1 h.frames
      have hmember : (Frame.member start members key limit).Within limit :=
        ⟨hframes.1.1, hframes.1.2, h.key key rfl, le_rfl⟩
      refine broken_within (List.forall_mem_cons.2 ⟨hmember, hframes.2⟩) le_rfl le_rfl ?_
      intro frame hframe
      obtain rfl := Option.some.inj hframe
      trivial
    all_goals exact breakOff_within h.frames (show Ending.Within limit (.cut limit) from le_rfl)
  | _ => exact breakOff_within h.frames le_rfl

def Step.Within (limit : Nat) : Step → Prop
  | .next want stack => Open limit want stack
  | .complete root => root.Within limit
  | .halt document => document.Within limit

namespace Step

variable {t : Token}

theorem ofNode_within (hstack : ∀ frame ∈ stack, frame.Within limit) {node : Node}
    (hstart : node.start < limit) (hnode : node.Within limit) :
    (ofNode node stack).Within limit := by
  cases stack with
  | nil => exact hnode
  | cons frame outer =>
    rw [List.forall_mem_cons] at hstack
    refine .of_frames (fun _ => nofun) nofun (List.forall_mem_cons.2 ⟨?_, hstack.2⟩)
    exact hstack.1.push hnode (frame.takes_of_lt hstart)

theorem close_within (hstack : ∀ frame ∈ stack, frame.Within limit) {stop : Nat}
    (hstop : stop ≤ limit) : (close stop stack).Within limit := by
  cases stack with
  | nil => exact breakOff_within hstack trivial
  | cons frame outer =>
    rw [List.forall_mem_cons] at hstack
    obtain ⟨hstart, hclose⟩ := hstack.1.close (.closed stop) hstop
    exact ofNode_within hstack.2 hstart hclose

theorem value_within (hstack : ∀ frame ∈ stack, frame.Within limit) (ht : t.Within limit) :
    (value stack t).Within limit := by
  obtain ⟨start, stop, lexeme⟩ := t
  have hnext : start + 1 ≤ limit := ht.start
  cases lexeme with
  | openArray =>
    exact .of_frames (fun _ => nofun) nofun (List.forall_mem_cons.2 ⟨⟨ht.start, trivial⟩, hstack⟩)
  | openObject =>
    exact .of_frames (fun _ => nofun) nofun (List.forall_mem_cons.2 ⟨⟨ht.start, trivial⟩, hstack⟩)
  | scalar value => exact ofNode_within hstack ht.start ⟨ht.stop, ht.lexeme⟩
  | string content => exact ofNode_within hstack ht.start ⟨ht.stop, FailsWithin.map _ ht.lexeme⟩
  | broken quoted read skipped =>
    exact broken_within_of_lt hstack ht.lexeme.1 ht.lexeme.2 ht.start
  | _ => exact broken_within_of_lt hstack hnext hnext ht.start

theorem key_within (hstack : ∀ frame ∈ stack, frame.Within limit) (ht : t.Within limit) :
    (key stack t).Within limit := by
  unfold key
  split
  · exact ⟨hstack, fun k hk => by cases hk; exact ht.lexeme, nofun⟩
  · obtain ⟨hread, hskipped⟩ := ht.lexeme
    split
    · have hframes := List.forall_mem_cons.1 hstack
      refine broken_within_of_lt (List.forall_mem_cons.2 ⟨?_, hframes.2⟩) hread hskipped ht.start
      exact ⟨hframes.1.1, hframes.1.2, .error hread, ht.start.le⟩
    · exact breakOff_within hstack ht.start
  · exact breakOff_within hstack ht.start

theorem colon_within {k : Except Fault String} (h : Open limit (.colon k) stack)
    (ht : t.Within limit) : (colon k stack t).Within limit := by
  have hnext : t.start + 1 ≤ limit := ht.start
  have hkey := h.key k rfl
  unfold colon
  split
  · have hframes := List.forall_mem_cons.1 h.frames
    rename_i first members outer
    have hstack : ∀ refused ≤ limit, ∀ frame ∈ Frame.member first members k refused :: outer,
        frame.Within limit := fun refused hrefused =>
      List.forall_mem_cons.2 ⟨⟨hframes.1.1, hframes.1.2, hkey, hrefused⟩, hframes.2⟩
    dsimp only
    split
    · refine ⟨hstack _ ht.start.le, nofun, fun _ frame hframe node => ?_⟩
      obtain rfl := Option.some.inj hframe
      trivial
    · exact broken_within_of_lt (hstack _ ht.stop) hnext hnext ht.start
    · exact broken_within_of_lt (hstack _ ht.start.le) hnext hnext ht.start
  · exact breakOff_within h.frames trivial

theorem separator_within (hstack : ∀ frame ∈ stack, frame.Within limit) (ht : t.Within limit) :
    (separator stack t).Within limit := by
  unfold separator
  split
  · exact .of_frames (fun _ => nofun) nofun hstack
  · exact close_within hstack ht.stop
  · exact .of_frames (fun _ => nofun) nofun hstack
  · exact close_within hstack ht.stop
  · exact breakOff_within hstack ht.start

theorem of_within {want : Want} (h : Open limit want stack) (ht : t.Within limit) :
    (Step.of want stack t).Within limit := by
  unfold Step.of
  split
  case h_1 | h_2 => exact close_within h.frames ht.stop
  case h_3 | h_4 => exact breakOff_within h.frames ht.start
  case h_5 | h_6 | h_7 => exact value_within h.frames ht
  case h_8 | h_9 => exact key_within h.frames ht
  case h_10 => exact colon_within h ht
  case h_11 => exact separator_within h.frames ht

end Step

theorem ofTokens_within {want : Want} {tokens : List Token} (h : Open limit want stack)
    (htokens : ∀ t ∈ tokens, t.Within limit) : (ofTokens limit want stack tokens).Within limit := by
  induction tokens generalizing want stack with
  | nil => exact atEnd_within h
  | cons t rest ih =>
    obtain ⟨ht, hrest⟩ := List.forall_mem_cons.1 htokens
    have hstep := Step.of_within h ht
    unfold ofTokens
    split
    · rename_i heq
      rw [heq] at hstep
      exact ih hstep hrest
    · rename_i heq
      rw [heq] at hstep
      refine ⟨hstep, fun f hf => ?_⟩
      obtain ⟨t, hhead, rfl⟩ := Option.map_eq_some_iff.1 hf
      exact (hrest t (List.mem_of_mem_head? hhead)).start
    · rename_i heq
      rw [heq] at hstep
      exact hstep

theorem ofText_within (text : String) : (ofText text).Within text.utf8ByteSize := by
  refine ofTokens_within ⟨fun _ h => absurd h List.not_mem_nil, nofun, nofun⟩ (lex_within ?_)
  rw [byteCount_toList, Nat.zero_add]

end Document

/-! ### Readers -/

theorem mismatch_within {node : Node} (h : node.Within limit) (expected : String) :
    (node.mismatch expected).offset ≤ limit := by
  rcases node with ⟨_, stop, _ | _⟩ | _ | _ | _
  · exact h.2 _ rfl
  all_goals exact h.1

theorem readText_within {node : Node} (h : node.Within limit) :
    FailsWithin limit node.readText := by
  unfold Node.readText
  split
  · exact .ok _
  · exact .error (mismatch_within h _)

theorem readText?_within {node : Node} (h : node.Within limit) :
    FailsWithin limit node.readText? := by
  unfold Node.readText?
  split
  · exact .ok _
  · exact (readText_within h).map _

mutual

theorem Node.read_within : ∀ {node : Node}, node.Within limit → FailsWithin limit node.read
  | .scalar _ _ _, h => h.2
  | .array _ _ _, h =>
    (readItems_within h.2.1).bind fun _ _ => h.2.2.list.bind fun _ _ => .ok _
  | .object _ _ _, h =>
    (readMembers_within h.2.1).bind fun _ _ => h.2.2.object.bind fun _ _ => .ok _
  | .broken _ _ _, h => .error h.1

theorem readItems_within : ∀ {items : List Node}, ItemsWithin limit items →
    FailsWithin limit (readItems items)
  | [], _ => .ok []
  | _ :: _, h =>
    (Node.read_within h.1.2).bind fun _ _ => (readItems_within h.2).bind fun _ _ => .ok _

theorem readMembers_within : ∀ {members : List Member} {done : Entries Json},
    MembersWithin limit members → FailsWithin limit (readMembers done members)
  | [], done, _ => .ok done
  | ⟨_, _, _⟩ :: _, _, h => h.1.1.bind fun _ _ => (Node.read_within h.1.2.2).bind fun _ _ =>
    readMembers_within h.2

end

theorem readMap_within {node : Node} (h : node.Within limit) : FailsWithin limit node.readMap := by
  unfold Node.readMap
  split
  · exact (readMembers_within h.2.1).bind fun _ _ => h.2.2.object.bind fun _ _ => .ok _
  · exact .error (mismatch_within h _)

mutual

theorem Node.skip_within : ∀ {node : Node}, node.Within limit → FailsWithin limit node.skip
  | .scalar _ _ _, _ => .ok ()
  | .array _ _ _, h => (skipItems_within h.2.1).bind fun _ _ => h.2.2.skippedList
  | .object _ _ _, h => (skipMembers_within h.2.1).bind fun _ _ => h.2.2.skippedObject
  | .broken _ _ _, h => .error h.2

theorem skipItems_within : ∀ {items : List Node}, ItemsWithin limit items →
    FailsWithin limit (skipItems items)
  | [], _ => .ok ()
  | _ :: _, h => (Node.skip_within h.1.2).bind fun _ _ => skipItems_within h.2

theorem skipMembers_within : ∀ {members : List Member}, MembersWithin limit members →
    FailsWithin limit (skipMembers members)
  | [], _ => .ok ()
  | ⟨_, _, _⟩ :: _, h => (Node.skip_within h.1.2.2).bind fun _ _ => skipMembers_within h.2

end

end Blockwork.Json
