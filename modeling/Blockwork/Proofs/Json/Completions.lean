import Blockwork.Proofs.Json.Offsets
import Blockwork.Proofs.Json.Openings

/-! Completions of texts that break off. Up to where a text is ill-formed it can be completed to a text
of the grammar, and the trees of the two are alike up to there. -/

namespace Blockwork.Json

open Document Text

variable {want : Want} {stack outer : List Frame} {text front : List Char} {offset : Nat}
  {node node' root root' : Node}

/-! ### Documents around a value -/

inductive Wraps : List Frame → Node → Node → Prop
  | nil (node : Node) : Wraps [] node node
  | cons {frame : Frame} {outer : List Frame} {node root : Node} (ending : Ending)
      (h : Wraps outer ((frame.push node).close ending) root) : Wraps (frame :: outer) node root

theorem wraps_unwind (stack : List Frame) (node : Node) : Wraps stack node (node.unwind stack) := by
  induction stack generalizing node with
  | nil => exact .nil node
  | cons frame outer ih => exact .cons .unread (ih ((frame.push node).close .unread))

theorem Wraps.alike (hstack : Before stack front) (hframes : ∀ frame ∈ stack, frame.Sound)
    (h : Wraps stack node root) (h' : Wraps stack node' root') (hnode : Node.Alike true node node') :
    Node.Alike true root root' := by
  -- The damage goes outward frame by frame, and what a frame holds in front of it is sound.
  induction stack generalizing node node' front with
  | nil =>
    cases h
    cases h'
    exact hnode
  | cons frame outer ih =>
    rw [List.forall_mem_cons] at hframes
    cases h with
    | cons ending h =>
      cases h' with
      | cons ending' h' =>
        cases hstack with
        | item hbefore hbody start items =>
          have hitems : ∀ node ∈ items.reverse, Node.Alike false node node := by
            simpa [Frame.Sound] using hframes.1
          refine ih hbefore hframes.2 h h' (.array ?_)
          rw [List.reverse_cons, List.reverse_cons]
          exact .append hitems (.inside hnode [] [])
        | member hbefore hbody q hmiddle hbetween start members key refused =>
          have hmembers : ∀ m ∈ members.reverse, m.Sound := by
            simpa [Frame.Sound] using hframes.1.1
          refine ih hbefore hframes.2 h h' (.object ?_)
          rw [List.reverse_cons, List.reverse_cons]
          exact .append hmembers (.inside hframes.1.2 (Nat.le_succ _) hnode [] [])

/-! ### Documents that break off -/

/-- The documents of the texts that break off where this is wanted, at the given offset. -/
inductive Breaks (offset : Nat) : Want → List Frame → Node → Prop
  | value {want : Want} {stack : List Frame} {start : Nat} {read skipped : Fault} {root : Node}
      (hwant : want.TakesValue) (hread : read.cause.isSyntax = true)
      (hskipped : skipped.cause.isSyntax = true) (h : Wraps stack (.broken start read skipped) root) :
    Breaks offset want stack root
  | items {want : Want} {start : Nat} {items : List Node} {outer : List Frame} {ending : Ending}
      {root : Node} (hending : ending.BreaksList)
      (h : Wraps outer (.array start items.reverse ending) root) :
    Breaks offset want (.array start items :: outer) root
  | members {want : Want} {start : Nat} {members : List Member} {outer : List Frame} {ending : Ending}
      {root : Node} (hwant : ∀ key, want ≠ .colon key) (hending : ending.BreaksObject)
      (h : Wraps outer (.object start members.reverse ending) root) :
    Breaks offset want (.object start members :: outer) root
  | key {want : Want} {start first refused : Nat} {members : List Member} {outer : List Frame}
      {key read skipped : Fault} {ending : Ending} {root : Node} (hwant : ∀ key, want ≠ .colon key)
      (hkey : key.cause.isSyntax = true) (hskipped : skipped.cause.isSyntax = true)
      (h : Wraps outer (.object start
        (members.reverse ++ [⟨.error key, refused, .broken first read skipped⟩]) ending) root) :
    Breaks offset want (.object start members :: outer) root
  | colon {start first refused : Nat} {key : Except Fault String} {members : List Member}
      {outer : List Frame} {read skipped : Fault} {ending : Ending} {root : Node}
      (hrefused : refused ≤ offset + 1) (hread : read.cause.isSyntax = true)
      (hskipped : skipped.cause.isSyntax = true)
      (h : Wraps outer (.object start
        (members.reverse ++ [⟨key, refused, .broken first read skipped⟩]) ending) root) :
    Breaks offset (.colon key) (.object start members :: outer) root

/-- The documents of the texts that go on where this is wanted, from the given offset. -/
inductive Continues (offset : Nat) : Want → List Frame → Node → Prop
  | value {stack : List Frame} {node root : Node} (h : Wraps stack node root) :
    Continues offset .value stack root
  | items {want : Want} {start : Nat} {items more : List Node} {outer : List Frame} {ending : Ending}
      {root : Node} (h : Wraps outer (.array start (items.reverse ++ more) ending) root) :
    Continues offset want (.array start items :: outer) root
  | members {want : Want} {start : Nat} {members more : List Member} {outer : List Frame}
      {ending : Ending} {root : Node} (hwant : ∀ key, want ≠ .colon key)
      (h : Wraps outer (.object start (members.reverse ++ more) ending) root) :
    Continues offset want (.object start members :: outer) root
  | colon {start refused : Nat} {key : Except Fault String} {members more : List Member} {node : Node}
      {outer : List Frame} {ending : Ending} {root : Node} (hrefused : offset ≤ refused)
      (h : Wraps outer (.object start (members.reverse ++ ⟨key, refused, node⟩ :: more) ending) root) :
    Continues offset (.colon key) (.object start members :: outer) root

theorem itemsAlike_cut {ending ending' : Ending} {items : List Node}
    (h : ∀ node ∈ items, Node.Alike false node node) (hending : ending.BreaksList)
    (more : List Node) : ItemsAlike ending ending' true items (items ++ more) := by
  have hcut : ItemsAlike ending ending' true (items ++ []) (items ++ more) :=
    .append h (.cut hending more)
  rwa [List.append_nil] at hcut

theorem membersAlike_cut {ending ending' : Ending} {members : List Member}
    (h : ∀ m ∈ members, m.Sound) (hending : ending.BreaksObject) (more : List Member) :
    MembersAlike ending ending' true members (members ++ more) := by
  have hcut : MembersAlike ending ending' true (members ++ []) (members ++ more) :=
    .append h (.cut hending more)
  rwa [List.append_nil] at hcut

/-- A text that breaks off has a tree like that of every text that goes on from there. -/
theorem Breaks.alike (hopening : Opening want stack text) (hsound : Sound want stack)
    (h : Breaks offset want stack root) (h' : Continues offset want stack root') :
    Node.Alike true root root' := by
  have hframes := hsound.frames
  cases hopening with
  | top hbefore | value hbefore =>
    cases h with
    | value hwant hread hskipped h =>
      cases h' with
      | value h' => exact h.alike hbefore hframes h' (.broken hread hskipped _)
  | firstItem hbefore | item hbefore | items hbefore =>
    rw [List.forall_mem_cons] at hframes
    have hitems := fun node hnode => hframes.1 node (List.mem_reverse.1 hnode)
    cases h' with
    | items h' =>
      cases h with
      | value hwant hread hskipped h =>
        cases h with
        | cons ending h =>
          refine h.alike hbefore hframes.2 h' (.array ?_)
          rw [List.reverse_cons]
          exact .append hitems (.broken hread hskipped _ _)
      | items hending h =>
        exact h.alike hbefore hframes.2 h' (.array (itemsAlike_cut hitems hending _))
  | firstKey hbefore | key hbefore | members hbefore =>
    rw [List.forall_mem_cons] at hframes
    have hmembers := fun m hm => hframes.1 m (List.mem_reverse.1 hm)
    cases h' with
    | members hwant h' =>
      cases h with
      | value hwant => rcases hwant with h | h | h <;> exact nomatch h
      | members _ hending h =>
        exact h.alike hbefore hframes.2 h' (.object (membersAlike_cut hmembers hending _))
      | key _ hkey hskipped h =>
        exact h.alike hbefore hframes.2 h' (.object (.append hmembers (.broken hkey hskipped _ _)))
  | colon hbefore =>
    rw [List.forall_mem_cons] at hframes
    have hmembers := fun m hm => hframes.1 m (List.mem_reverse.1 hm)
    cases h' with
    | members hwant => exact absurd rfl (hwant _)
    | colon hoffset h' =>
      cases h with
      | value hwant => rcases hwant with h | h | h <;> exact nomatch h
      | members hwant | key hwant => exact absurd rfl (hwant _)
      | colon hrefused hread hskipped h =>
        refine h.alike hbefore hframes.2 h' (.object (.append hmembers ?_))
        exact .inside (hsound.key _ rfl) (by omega) (.broken hread hskipped _) _ _

/-! ### Completions -/

def Frame.closer : Frame → Char
  | .array .. => ']'
  | .object .. | .member .. => '\x7d'

theorem closer_push (frame : Frame) (node : Node) : (frame.push node).closer = frame.closer := by
  cases frame <;> rfl

theorem closer_cases (frame : Frame) :
    frame.closer = ',' ∨ frame.closer = ']' ∨ frame.closer = '\x7d' := by
  cases frame <;> simp [Frame.closer]

def closers (stack : List Frame) : List Char := stack.map Frame.closer

theorem endsNumber_closers (stack : List Frame) : EndsNumber (closers stack) := by
  cases stack with
  | nil => exact fun c hc => nomatch hc
  | cons frame outer => exact endsNumber_mark (closer_cases frame) _

theorem Opening.close {frame : Frame} (h : Opening .separator (frame :: outer) text) :
    Done outer (text ++ [frame.closer]) := by
  cases h with
  | items h hbody => exact h.doneArray hbody
  | members h hbody => exact h.doneObject hbody

theorem Done.isOf_closers (h : Done stack text) :
    ∃ t : Tree, t.IsOf (String.ofList (text ++ closers stack)) := by
  induction stack generalizing text with
  | nil => exact h.isOf isBlank_nil
  | cons frame outer ih =>
    have hclose := (h.push (.broken 0 ⟨.noValue, 0⟩ ⟨.noValue, 0⟩)).close
    rw [closer_push] at hclose
    simpa [closers] using ih hclose

theorem follow_closers (hstack : Before stack front) (node : Node) (offset length : Nat) :
    ∃ root, Wraps stack node root ∧
      (Step.ofNode node stack).follow length (lex offset (closers stack)) = ⟨root, none⟩ := by
  induction stack generalizing node offset front with
  | nil => exact ⟨node, .nil node, by rw [closers, List.map_nil, lex]; rfl⟩
  | cons frame outer ih =>
    cases hstack with
    | item hbefore hbody start items =>
      obtain ⟨root, hwraps, hfollow⟩ :=
        ih hbefore (.array start (node :: items).reverse (.closed (offset + 1))) (offset + 1)
      refine ⟨root, .cons _ hwraps, ?_⟩
      show ofTokens length .separator (.array start (node :: items) :: outer)
        (lex offset (']' :: closers outer)) = _
      rw [lex_mark rfl (fun _ _ => rfl), ofTokens_cons, ← hfollow]
      rfl
    | member hbefore hbody q hmiddle hbetween start members key refused =>
      obtain ⟨root, hwraps, hfollow⟩ := ih hbefore
        (.object start (⟨key, refused, node⟩ :: members).reverse (.closed (offset + 1))) (offset + 1)
      refine ⟨root, .cons _ hwraps, ?_⟩
      show ofTokens length .separator (.object start (⟨key, refused, node⟩ :: members) :: outer)
        (lex offset ('\x7d' :: closers outer)) = _
      rw [lex_mark rfl (fun _ _ => rfl), ofTokens_cons, ← hfollow]
      rfl

structure Completes (want : Want) (stack : List Frame) (text back : List Char) : Prop where
  ends : EndsNumber back
  isOf : ∃ t : Tree, t.IsOf (String.ofList (text ++ back))
  continues (offset length : Nat) : ∃ root, Continues offset want stack root ∧
    ofTokens length want stack (lex offset back) = ⟨root, none⟩

theorem endsNumber_cons {c : Char} (h : c.isDigit = false ∧ c ≠ '.' ∧ c ≠ 'e' ∧ c ≠ 'E')
    (rest : List Char) : EndsNumber (c :: rest) := by
  intro d hd
  obtain rfl := Option.some.inj hd
  exact h

theorem isOf_null (h : Before stack text) :
    ∃ t : Tree, t.IsOf (String.ofList (text ++ ("null".toList ++ closers stack))) := by
  rw [← List.append_assoc]
  exact (h.done (.word ⟨_, .null⟩)).isOf_closers

theorem ofTokens_null (h : Before stack text) (hwant : want.TakesValue) (offset length : Nat) :
    ∃ node root, Wraps stack node root ∧
      ofTokens length want stack (lex offset ("null".toList ++ closers stack)) = ⟨root, none⟩ := by
  obtain ⟨root, hwraps, hfollow⟩ :=
    follow_closers h (.scalar offset (offset + 4) (.ok .null)) (offset + 4) length
  refine ⟨_, root, hwraps, ?_⟩
  rw [lex_null, ofTokens_cons, of_scalar hwant]
  exact hfollow

theorem completes_value (h : Before stack text) :
    Completes .value stack text ("null".toList ++ closers stack) where
  ends := endsNumber_cons (by decide) _
  isOf := isOf_null h
  continues offset length := by
    obtain ⟨node, root, hwraps, hroot⟩ := ofTokens_null h (.inl rfl) offset length
    exact ⟨root, .value hwraps, hroot⟩

theorem completes_item {start : Nat} {items : List Node}
    (h : Before (.array start items :: outer) text) (hwant : want.TakesValue) :
    Completes want (.array start items :: outer) text
      ("null".toList ++ closers (.array start items :: outer)) where
  ends := endsNumber_cons (by decide) _
  isOf := isOf_null h
  continues offset length := by
    obtain ⟨node, root, hwraps, hroot⟩ := ofTokens_null h hwant offset length
    cases hwraps with
    | cons ending hwraps =>
      have hclosed : Wraps outer (.array start (items.reverse ++ [node]) ending) root := by
        rwa [← List.reverse_cons]
      exact ⟨root, .items hclosed, hroot⟩

theorem completes_separator {frame : Frame} (h : Opening .separator (frame :: outer) text) :
    Completes .separator (frame :: outer) text (closers (frame :: outer)) where
  ends := endsNumber_closers _
  isOf := by simpa [closers] using h.close.isOf_closers
  continues offset length := by
    cases h with
    | items hbefore hbody start items =>
      obtain ⟨root, hwraps, hfollow⟩ := follow_closers hbefore
        (.array start items.reverse (.closed (offset + 1))) (offset + 1) length
      refine ⟨root, .items (by rwa [List.append_nil]), ?_⟩
      show ofTokens length .separator _ (lex offset (']' :: closers outer)) = _
      rw [lex_mark rfl (fun _ _ => rfl), ofTokens_cons, ← hfollow]
      rfl
    | members hbefore hbody start members =>
      obtain ⟨root, hwraps, hfollow⟩ := follow_closers hbefore
        (.object start members.reverse (.closed (offset + 1))) (offset + 1) length
      refine ⟨root, .members (fun _ => nofun) (by rwa [List.append_nil]), ?_⟩
      show ofTokens length .separator _ (lex offset ('\x7d' :: closers outer)) = _
      rw [lex_mark rfl (fun _ _ => rfl), ofTokens_cons, ← hfollow]
      rfl

/-- What completes an object behind a key: the closing mark does not depend on the members before. -/
def valueBehindKey (outer : List Frame) : List Char :=
  ':' :: ("null".toList ++ '\x7d' :: closers outer)

theorem completes_colon {key : Except Fault String} {start : Nat} {members : List Member}
    (h : Opening (.colon key) (.object start members :: outer) text) :
    Completes (.colon key) (.object start members :: outer) text (valueBehindKey outer) := by
  cases h with
  | @colon _ front body middle hbefore hbody q hmiddle =>
    have hvalue := hbefore.member hbody q hmiddle isBlank_nil start members key
    refine ⟨endsNumber_cons (by decide) _, ?_, fun offset length => ?_⟩
    · simpa [valueBehindKey, closers, Frame.closer] using isOf_null (hvalue 0)
    · obtain ⟨node, root, hwraps, hroot⟩ :=
        ofTokens_null (hvalue offset) (.inl rfl) (offset + 1) length
      cases hwraps with
      | cons ending hwraps =>
        have hclosed : Wraps outer
            (.object start (members.reverse ++ [⟨key, offset, node⟩]) ending) root := by
          rwa [← List.reverse_cons]
        refine ⟨root, .colon le_rfl hclosed, ?_⟩
        rw [valueBehindKey, lex_mark rfl (fun _ _ => rfl), ofTokens_cons, ← hroot]
        rfl

theorem completes_key {start : Nat} {members : List Member} {body : List Char}
    (h : Before outer front) (hbody : MembersOpen body) (hwant : want.TakesKey) :
    Completes want (.object start members :: outer) (front ++ '\x7b' :: body)
      (Quoted.text ⟨[], .nil⟩ ++ valueBehindKey outer) := by
  have hcolon := fun key => completes_colon
    (Opening.colon h hbody ⟨[], .nil⟩ isBlank_nil start members key)
  refine ⟨endsNumber_cons (by decide) _, by simpa using (hcolon (.ok "")).isOf,
    fun offset length => ?_⟩
  obtain ⟨content, stop, hlex, -⟩ := lex_quoted ⟨[], .nil⟩ offset (valueBehindKey outer)
  obtain ⟨root, hcontinues, hroot⟩ := (hcolon content).continues stop length
  refine ⟨root, ?_, ?_⟩
  · cases hcontinues with
    | members hnever => exact absurd rfl (hnever content)
    | colon _ hwraps => exact .members (by rcases hwant with rfl | rfl <;> exact fun _ => nofun) hwraps
  · rw [hlex, ofTokens_cons, ← hroot]
    rcases hwant with rfl | rfl <;> rfl

/-- Up to here the text can be completed. -/
theorem Opening.completes (h : Opening want stack text) :
    ∃ back, Completes want stack text back := by
  cases h with
  | top h | value h => exact ⟨_, completes_value h⟩
  | firstItem h hblank start items =>
    exact ⟨_, completes_item (h.item (.first hblank) start items) (.inr (.inl rfl))⟩
  | item h hbody hblank start items =>
    exact ⟨_, completes_item (h.item (.next hbody hblank) start items) (.inr (.inr rfl))⟩
  | items h hbody start items => exact ⟨_, completes_separator (.items h hbody start items)⟩
  | firstKey h hblank => exact ⟨_, completes_key h (.first hblank) (.inl rfl)⟩
  | key h hbody hblank => exact ⟨_, completes_key h (.next hbody hblank) (.inr rfl)⟩
  | colon h hbody q hmiddle start members key =>
    exact ⟨_, completes_colon (.colon h hbody q hmiddle start members key)⟩
  | members h hbody start members => exact ⟨_, completes_separator (.members h hbody start members)⟩

end Blockwork.Json
