import Blockwork.Proofs.Json.Damage

/-! Beginnings of well-formed texts. What the lexemes so far have opened is also what the grammar has left
open, so a document that comes to its end is a text of the grammar. -/

namespace Blockwork.Json

open Document

/-! ### Lists that go on -/

theorem isBlank_nil : IsBlank [] := List.forall_mem_nil _

theorem isBlank_append {blank blank' : List Char} (h : IsBlank blank) (h' : IsBlank blank') :
    IsBlank (blank ++ blank') := List.forall_mem_append.2 ⟨h, h'⟩

theorem ItemsSpelled.concat {item : Tree} {before cs : List Char} (hbefore : IsBlank before)
    (hcs : item.Spelled cs) : ∀ {items : List Tree} {body : List Char}, ItemsSpelled items body →
      ItemsSpelled (items ++ [item]) (body ++ ',' :: (before ++ cs))
  | _, _, .last hb h ha => by
    have hitem := ItemsSpelled.last hbefore hcs isBlank_nil
    simpa using ItemsSpelled.cons hb h ha hitem
  | _, _, .cons hb h ha hrest => by
    simpa using ItemsSpelled.cons hb h ha (hrest.concat hbefore hcs)

theorem ItemsSpelled.blank {blank : List Char} (hblank : IsBlank blank) :
    ∀ {items : List Tree} {body : List Char}, ItemsSpelled items body →
      ItemsSpelled items (body ++ blank)
  | _, _, .last hb h ha => by simpa using ItemsSpelled.last hb h (isBlank_append ha hblank)
  | _, _, .cons hb h ha hrest => by simpa using ItemsSpelled.cons hb h ha (hrest.blank hblank)

theorem MemberSpelled.blank {key : Quoted} {value : Tree} {member blank : List Char}
    (hblank : IsBlank blank) (h : MemberSpelled key value member) :
    MemberSpelled key value (member ++ blank) := by
  cases h with
  | mk hbefore hmiddle hbetween h hafter =>
    simpa using MemberSpelled.mk hbefore hmiddle hbetween h (isBlank_append hafter hblank)

theorem MembersSpelled.concat {key : Quoted} {value : Tree} {member : List Char}
    (hmember : MemberSpelled key value member) : ∀ {members : List (Quoted × Tree)}
      {body : List Char}, MembersSpelled members body →
        MembersSpelled (members ++ [(key, value)]) (body ++ ',' :: member)
  | _, _, .last h => .cons h (.last hmember)
  | _, _, .cons h hrest => by simpa using MembersSpelled.cons h (hrest.concat hmember)

theorem MembersSpelled.blank {blank : List Char} (hblank : IsBlank blank) :
    ∀ {members : List (Quoted × Tree)} {body : List Char}, MembersSpelled members body →
      MembersSpelled members (body ++ blank)
  | _, _, .last h => .last (h.blank hblank)
  | _, _, .cons h hrest => by simpa using MembersSpelled.cons h (hrest.blank hblank)

/-! ### What the grammar has left open -/

inductive ItemsOpen : List Char → Prop
  | first {blank : List Char} (h : IsBlank blank) : ItemsOpen blank
  | next {items : List Tree} {body blank : List Char} (h : ItemsSpelled items body)
      (hblank : IsBlank blank) : ItemsOpen (body ++ ',' :: blank)

inductive MembersOpen : List Char → Prop
  | first {blank : List Char} (h : IsBlank blank) : MembersOpen blank
  | next {members : List (Quoted × Tree)} {body blank : List Char} (h : MembersSpelled members body)
      (hblank : IsBlank blank) : MembersOpen (body ++ ',' :: blank)

theorem ItemsOpen.spelled {body before cs : List Char} {item : Tree} (h : ItemsOpen body)
    (hbefore : IsBlank before) (hcs : item.Spelled cs) :
    ∃ items, ItemsSpelled items (body ++ (before ++ cs)) := by
  cases h with
  | first h => exact ⟨_, by simpa using ItemsSpelled.last (isBlank_append h hbefore) hcs isBlank_nil⟩
  | next h hblank => exact ⟨_, by simpa using h.concat (isBlank_append hblank hbefore) hcs⟩

theorem MemberSpelled.before {key : Quoted} {value : Tree} {member blank : List Char}
    (hblank : IsBlank blank) (h : MemberSpelled key value member) :
    MemberSpelled key value (blank ++ member) := by
  cases h with
  | mk hbefore hmiddle hbetween h hafter =>
    simpa using MemberSpelled.mk (isBlank_append hblank hbefore) hmiddle hbetween h hafter

theorem MembersOpen.spelled {body member : List Char} {key : Quoted} {value : Tree}
    (h : MembersOpen body) (hmember : MemberSpelled key value member) :
    ∃ members, MembersSpelled members (body ++ member) := by
  cases h with
  | first h => exact ⟨_, .last (hmember.before h)⟩
  | next h hblank => exact ⟨_, by simpa using h.concat (hmember.before hblank)⟩

/-- The text leads to a place inside the open frames where a value may come. -/
inductive Before : List Frame → List Char → Prop
  | top {blank : List Char} (h : IsBlank blank) : Before [] blank
  | item {outer : List Frame} {front body : List Char} (h : Before outer front)
      (hbody : ItemsOpen body) (start : Nat) (items : List Node) :
    Before (.array start items :: outer) (front ++ '[' :: body)
  | member {outer : List Frame} {front body middle between : List Char} (h : Before outer front)
      (hbody : MembersOpen body) (q : Quoted) (hmiddle : IsBlank middle) (hbetween : IsBlank between)
      (start : Nat) (members : List Member) (key : Except Fault String) (refused : Nat) :
    Before (.member start members key refused :: outer)
      (front ++ '\x7b' :: (body ++ (q.text ++ (middle ++ ':' :: between))))

def Done (stack : List Frame) (text : List Char) : Prop :=
  ∃ front t cs, Before stack front ∧ Tree.Spelled t cs ∧ text = front ++ cs

inductive Opening : Want → List Frame → List Char → Prop
  | top {text : List Char} (h : Before [] text) : Opening .value [] text
  | value {start : Nat} {members : List Member} {key : Except Fault String} {refused : Nat}
      {outer : List Frame} {text : List Char}
      (h : Before (.member start members key refused :: outer) text) :
    Opening .value (.member start members key refused :: outer) text
  | firstItem {outer : List Frame} {front blank : List Char} (h : Before outer front)
      (hblank : IsBlank blank) (start : Nat) (items : List Node) :
    Opening .firstItem (.array start items :: outer) (front ++ '[' :: blank)
  | item {outer : List Frame} {front body blank : List Char} {done : List Tree} (h : Before outer front)
      (hbody : ItemsSpelled done body) (hblank : IsBlank blank) (start : Nat) (items : List Node) :
    Opening .item (.array start items :: outer) (front ++ '[' :: (body ++ ',' :: blank))
  | items {outer : List Frame} {front body : List Char} {done : List Tree} (h : Before outer front)
      (hbody : ItemsSpelled done body) (start : Nat) (items : List Node) :
    Opening .separator (.array start items :: outer) (front ++ '[' :: body)
  | firstKey {outer : List Frame} {front blank : List Char} (h : Before outer front)
      (hblank : IsBlank blank) (start : Nat) (members : List Member) :
    Opening .firstKey (.object start members :: outer) (front ++ '\x7b' :: blank)
  | key {outer : List Frame} {front body blank : List Char} {done : List (Quoted × Tree)}
      (h : Before outer front) (hbody : MembersSpelled done body) (hblank : IsBlank blank)
      (start : Nat) (members : List Member) :
    Opening .key (.object start members :: outer) (front ++ '\x7b' :: (body ++ ',' :: blank))
  | colon {outer : List Frame} {front body middle : List Char} (h : Before outer front)
      (hbody : MembersOpen body) (q : Quoted) (hmiddle : IsBlank middle) (start : Nat)
      (members : List Member) (key : Except Fault String) :
    Opening (.colon key) (.object start members :: outer)
      (front ++ '\x7b' :: (body ++ (q.text ++ middle)))
  | members {outer : List Frame} {front body : List Char} {done : List (Quoted × Tree)}
      (h : Before outer front) (hbody : MembersSpelled done body) (start : Nat)
      (members : List Member) :
    Opening .separator (.object start members :: outer) (front ++ '\x7b' :: body)

variable {want : Want} {stack outer : List Frame} {text blank : List Char}

theorem Before.append_blank (hblank : IsBlank blank) : Before stack text → Before stack (text ++ blank)
  | .top h => .top (isBlank_append h hblank)
  | .item h (.first hb) start items => by
    simpa using h.item (.first (isBlank_append hb hblank)) start items
  | .item h (.next hbody hb) start items => by
    simpa using h.item (.next hbody (isBlank_append hb hblank)) start items
  | .member h hbody q hmiddle hbetween start members key refused => by
    simpa using h.member hbody q hmiddle (isBlank_append hbetween hblank) start members key refused

theorem Opening.append_blank (hblank : IsBlank blank) :
    Opening want stack text → Opening want stack (text ++ blank)
  | .top h => .top (h.append_blank hblank)
  | .value h => .value (h.append_blank hblank)
  | .firstItem h hb start nodes => by
    simpa using Opening.firstItem h (isBlank_append hb hblank) start nodes
  | .item h hbody hb start nodes => by
    simpa using Opening.item h hbody (isBlank_append hb hblank) start nodes
  | .items h hbody start nodes => by simpa using Opening.items h (hbody.blank hblank) start nodes
  | .firstKey h hb start nodes => by
    simpa using Opening.firstKey h (isBlank_append hb hblank) start nodes
  | .key h hbody hb start nodes => by
    simpa using Opening.key h hbody (isBlank_append hb hblank) start nodes
  | .colon h hbody q hmiddle start nodes name => by
    simpa using Opening.colon h hbody q (isBlank_append hmiddle hblank) start nodes name
  | .members h hbody start nodes => by simpa using Opening.members h (hbody.blank hblank) start nodes

theorem Opening.before (h : Opening want stack text) (hwant : want.TakesValue) :
    Before stack text := by
  cases h with
  | top h | value h => exact h
  | firstItem h hblank start items => exact h.item (.first hblank) start items
  | item h hbody hblank start items => exact h.item (.next hbody hblank) start items
  | items | firstKey | key | colon | members => rcases hwant with h | h | h <;> exact nomatch h

/-! ### Values that come to their end -/

theorem Done.isOf {text : List Char} (h : Done [] text) (hblank : IsBlank blank) :
    ∃ t : Tree, t.IsOf (String.ofList (text ++ blank)) := by
  obtain ⟨front, t, cs, ⟨hfront⟩, hcs, rfl⟩ := h
  exact ⟨t, front, cs, blank, hfront, hcs, hblank, by simp⟩

theorem Done.push {frame : Frame} (h : Done (frame :: outer) text) (node : Node) :
    Opening .separator (frame.push node :: outer) text := by
  obtain ⟨front, t, cs, hfront, hcs, rfl⟩ := h
  cases hfront with
  | @item _ front body h hbody start items =>
    obtain ⟨done, hdone⟩ := hbody.spelled isBlank_nil hcs
    show Opening .separator (.array start (node :: items) :: outer) _
    have htext : front ++ '[' :: body ++ cs = front ++ '[' :: (body ++ ([] ++ cs)) := by simp
    rw [htext]
    exact .items h hdone start _
  | @member _ front body middle between h hbody q hmiddle hbetween start members key refused =>
    obtain ⟨done, hdone⟩ := hbody.spelled (MemberSpelled.mk isBlank_nil hmiddle hbetween hcs isBlank_nil)
    show Opening .separator (.object start (⟨key, refused, node⟩ :: members) :: outer) _
    have htext : front ++ '\x7b' :: (body ++ (q.text ++ (middle ++ ':' :: between))) ++ cs =
        front ++ '\x7b' :: (body ++ ([] ++ (q.text ++ (middle ++ ':' :: (between ++ (cs ++ [])))))) := by
      simp
    rw [htext]
    exact .members h hdone start _

theorem Before.done {t : Tree} {cs : List Char} (h : Before stack text) (hcs : t.Spelled cs) :
    Done stack (text ++ cs) := ⟨text, t, cs, h, hcs, rfl⟩

section

variable {front body : List Char} (h : Before outer front)
include h

theorem Before.doneArray {items : List Tree} (hbody : ItemsSpelled items body) :
    Done outer (front ++ '[' :: body ++ [']']) := by
  simpa using h.done (.array hbody)

theorem Before.doneEmptyArray (hblank : IsBlank blank) :
    Done outer (front ++ '[' :: blank ++ [']']) := by
  simpa using h.done (.emptyArray hblank)

theorem Before.doneObject {members : List (Quoted × Tree)} (hbody : MembersSpelled members body) :
    Done outer (front ++ '\x7b' :: body ++ ['\x7d']) := by
  simpa using h.done (.object hbody)

theorem Before.doneEmptyObject (hblank : IsBlank blank) :
    Done outer (front ++ '\x7b' :: blank ++ ['\x7d']) := by
  simpa using h.done (.emptyObject hblank)

end

/-! ### Frames without damage -/

theorem ItemsAlike.append {damaged : Bool} {ending ending' : Ending} {items rest rest' : List Node}
    (h : ∀ node ∈ items, Node.Alike false node node)
    (hrest : ItemsAlike ending ending' damaged rest rest') :
    ItemsAlike ending ending' damaged (items ++ rest) (items ++ rest') := by
  induction items with
  | nil => exact hrest
  | cons node items ih =>
    rw [List.forall_mem_cons] at h
    exact .cons h.1 (ih h.2)

def Member.Sound (m : Member) : Prop := Refuses m.key ∧ Node.Alike false m.value m.value

theorem MembersAlike.append {damaged : Bool} {ending ending' : Ending}
    {members rest rest' : List Member} (h : ∀ m ∈ members, m.Sound)
    (hrest : MembersAlike ending ending' damaged rest rest') :
    MembersAlike ending ending' damaged (members ++ rest) (members ++ rest') := by
  induction members with
  | nil => exact hrest
  | cons m members ih =>
    obtain ⟨key, refused, node⟩ := m
    rw [List.forall_mem_cons] at h
    exact .cons h.1.1 h.1.2 (ih h.2)

def Frame.Sound : Frame → Prop
  | .array _ items => ∀ node ∈ items, Node.Alike false node node
  | .object _ members => ∀ m ∈ members, m.Sound
  | .member _ members key _ => (∀ m ∈ members, m.Sound) ∧ Refuses key

variable {frame : Frame} {node : Node}

theorem Frame.Sound.push (h : frame.Sound) (hnode : Node.Alike false node node) :
    (frame.push node).Sound := by
  cases frame with
  | array => exact List.forall_mem_cons.2 ⟨hnode, h⟩
  | object => exact h
  | member => exact List.forall_mem_cons.2 ⟨⟨h.2, hnode⟩, h.1⟩

theorem Frame.Sound.close (h : frame.Sound) (stop : Nat) :
    Node.Alike false (frame.close (.closed stop)) (frame.close (.closed stop)) := by
  have hitems : ∀ {items : List Node}, (∀ node ∈ items, Node.Alike false node node) →
      ItemsAlike (.closed stop) (.closed stop) false items.reverse items.reverse := by
    intro items h
    have hreverse : ∀ node ∈ items.reverse, Node.Alike false node node := by simpa using h
    simpa using ItemsAlike.append hreverse (.closed stop)
  have hmembers : ∀ {members : List Member}, (∀ m ∈ members, m.Sound) →
      MembersAlike (.closed stop) (.closed stop) false members.reverse members.reverse := by
    intro members h
    have hreverse : ∀ m ∈ members.reverse, m.Sound := by simpa using h
    simpa using MembersAlike.append hreverse (.closed stop)
  cases frame with
  | array => exact .array (hitems h)
  | object => exact .object (hmembers h)
  | member => exact .object (hmembers h.1)

structure Sound (want : Want) (stack : List Frame) : Prop where
  frames : ∀ frame ∈ stack, frame.Sound
  key : ∀ key, want = .colon key → Refuses key

theorem Sound.of_frames (h : ∀ frame ∈ stack, frame.Sound) (hwant : ∀ key, want ≠ .colon key) :
    Sound want stack := ⟨h, fun key hkey => absurd hkey (hwant key)⟩

/-! ### Steps -/

def Document.Step.Keeps (text : List Char) : Step → Prop
  | .next want stack => Opening want stack text ∧ Sound want stack
  | .complete root => Done [] text ∧ Node.Alike false root root
  | .halt _ => True

theorem ofNode_keeps (h : Done stack text) (hframes : ∀ frame ∈ stack, frame.Sound)
    (hnode : Node.Alike false node node) : (Step.ofNode node stack).Keeps text := by
  cases stack with
  | nil => exact ⟨h, hnode⟩
  | cons frame outer =>
    rw [List.forall_mem_cons] at hframes
    exact ⟨h.push node, .of_frames (List.forall_mem_cons.2 ⟨hframes.1.push hnode, hframes.2⟩) nofun⟩

theorem close_keeps (h : Done outer text) (hframes : ∀ f ∈ frame :: outer, f.Sound) (stop : Nat) :
    (Step.close stop (frame :: outer)).Keeps text :=
  have hframes := List.forall_mem_cons.1 hframes
  ofNode_keeps h hframes.2 (hframes.1.close stop)

theorem value_keeps {t : Token} {piece : List Char} (h : Before stack text)
    (hframes : ∀ frame ∈ stack, frame.Sound) (ht : t.lexeme.Spelled piece) :
    (Step.value stack t).Keeps (text ++ piece) := by
  obtain ⟨start, stop, lexeme⟩ := t
  cases ht with
  | openArray =>
    exact ⟨.firstItem h isBlank_nil start [], .of_frames (List.forall_mem_cons.2
      ⟨List.forall_mem_nil _, hframes⟩) nofun⟩
  | openObject =>
    exact ⟨.firstKey h isBlank_nil start [], .of_frames (List.forall_mem_cons.2
      ⟨List.forall_mem_nil _, hframes⟩) nofun⟩
  | scalar w hvalue => exact ofNode_keeps (h.done (.word w)) hframes (.scalar hvalue)
  | string q hcontent => exact ofNode_keeps (h.done (.string q)) hframes (.scalar (hcontent.map _))
  | closeArray | closeObject | comma | colon => trivial

theorem key_keeps {outer : List Frame} {front body : List Char} (start stop : Nat) {first : Nat}
    {members : List Member} {q : Quoted} {content : Except Fault String} (h : Before outer front)
    (hbody : MembersOpen body) (hframes : ∀ f ∈ Frame.object first members :: outer, f.Sound)
    (hcontent : Refuses content) :
    (Step.key (.object first members :: outer) ⟨start, stop, .string content⟩).Keeps
      (front ++ '\x7b' :: body ++ q.text) := by
  refine ⟨?_, hframes, fun key hkey => by cases hkey; exact hcontent⟩
  have htext : front ++ '\x7b' :: body ++ q.text = front ++ '\x7b' :: (body ++ (q.text ++ [])) := by
    simp
  rw [htext]
  exact .colon h hbody q isBlank_nil first members content

theorem step_keeps {t : Token} {piece : List Char} (h : Opening want stack text)
    (hsound : Sound want stack) (ht : t.lexeme.Spelled piece) :
    (Step.of want stack t).Keeps (text ++ piece) := by
  have hvalue := fun hwant => value_keeps (h.before hwant) hsound.frames ht
  have hnext : ∀ {want}, (∀ key, want ≠ .colon key) → Sound want stack := .of_frames hsound.frames
  obtain ⟨start, stop, lexeme⟩ := t
  cases h with
  | top | value => exact hvalue (.inl rfl)
  | firstItem h hblank =>
    cases ht with
    | closeArray => exact close_keeps (h.doneEmptyArray hblank) hsound.frames stop
    | _ => exact hvalue (.inr (.inl rfl))
  | item =>
    cases ht with
    | closeArray => trivial
    | _ => exact hvalue (.inr (.inr rfl))
  | items h hbody first items =>
    cases ht with
    | comma => exact ⟨by simpa using Opening.item h hbody isBlank_nil first items, hnext nofun⟩
    | closeArray => exact close_keeps (h.doneArray hbody) hsound.frames stop
    | _ => trivial
  | firstKey h hblank first members =>
    cases ht with
    | closeObject => exact close_keeps (h.doneEmptyObject hblank) hsound.frames stop
    | string q hcontent => exact key_keeps start stop h (.first hblank) hsound.frames hcontent
    | _ => trivial
  | key h hbody hblank first members =>
    cases ht with
    | string q hcontent => exact key_keeps start stop h (.next hbody hblank) hsound.frames hcontent
    | _ => trivial
  | colon h hbody q hmiddle first members key =>
    have hframes := List.forall_mem_cons.1 hsound.frames
    cases ht with
    | colon =>
      refine ⟨.value ?_, .of_frames (List.forall_mem_cons.2
        ⟨⟨hframes.1, hsound.key key rfl⟩, hframes.2⟩) nofun⟩
      simpa using h.member hbody q hmiddle isBlank_nil first members key start
    | _ => trivial
  | members h hbody first members =>
    cases ht with
    | comma => exact ⟨by simpa using Opening.key h hbody isBlank_nil first members, hnext nofun⟩
    | closeObject => exact close_keeps (h.doneObject hbody) hsound.frames stop
    | _ => trivial

end Blockwork.Json
