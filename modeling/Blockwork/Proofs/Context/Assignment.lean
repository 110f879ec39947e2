import Blockwork.Proofs.Interpreter.Untouched
import Blockwork.Proofs.Entries

/-! What assignments change. The assigned name reads as its new value and all others as before; a name
that the root binds is assigned there, also from a scope that is closed afterwards. -/

namespace Blockwork

namespace Context

variable {V : Type} {c c' : Context V} {name : String}

structure RootOnly (name : String) (c : Context V) : Prop where
  current : c.current.bindings.get? name = none
  root : name ∈ c.root.bindings.names

namespace RootOnly

theorem push (h : name ∈ c.root.bindings.names) : c.push.RootOnly name := ⟨rfl, h⟩

theorem of_same (h : c.RootOnly name) (hsame : c.SameBinding name c') : c'.RootOnly name := by
  refine ⟨hsame.current.trans h.current, ?_⟩
  by_contra hnone
  rw [← Entries.get?_eq_none, hsame.root, Entries.get?_eq_none] at hnone
  exact hnone h.root

theorem set_eq (h : c.RootOnly name) (v : V) : c.set name v = c.declare name v := by
  have hcurrent : ¬ c.current.bindings.contains name = true :=
    mt Entries.contains_iff.1 (Entries.get?_eq_none.1 h.current)
  rw [Context.set, if_neg hcurrent, if_pos (Entries.contains_iff.2 h.root)]

theorem get?_root_set (h : c.RootOnly name) (v : V) :
    (c.set name v).root.bindings.get? name = some v := by
  rw [h.set_eq]
  exact Entries.get?_put_self ..

theorem current_set (h : c.RootOnly name) (v : V) :
    (c.set name v).current.bindings.get? name = none := by
  rw [h.set_eq]
  obtain ⟨_ | ⟨scope, rest⟩, root⟩ := c
  · exact absurd h.root (Entries.get?_eq_none.1 h.current)
  · exact h.current

theorem get?_set (h : c.RootOnly name) (v : V) : (c.set name v).get? name = some v := by
  rw [Context.get?, h.current_set]
  exact h.get?_root_set v

theorem set (h : c.RootOnly name) (v : V) : (c.set name v).RootOnly name := by
  refine ⟨h.current_set v, ?_⟩
  by_contra hnone
  rw [← Entries.get?_eq_none, h.get?_root_set] at hnone
  exact absurd hnone (by simp)

end RootOnly

/-! ### One assignment -/

theorem get?_setCurrent_self (c : Context V) (name : String) (v : V) :
    (c.setCurrent name v).get? name = some v := by
  have hcurrent : (c.setCurrent name v).current.bindings = c.current.bindings.put name v := by
    obtain ⟨_ | ⟨scope, rest⟩, root⟩ := c <;> rfl
  rw [Context.get?, hcurrent, Entries.get?_put_self]

theorem get?_set_self (c : Context V) (name : String) (v : V) :
    (c.set name v).get? name = some v := by
  by_cases hcurrent : c.current.bindings.contains name = true
  · rw [Context.set, if_pos hcurrent]
    exact get?_setCurrent_self c name v
  · by_cases hroot : c.root.bindings.contains name = true
    · have honly : c.RootOnly name :=
        ⟨Entries.get?_eq_none.2 (mt Entries.contains_iff.2 hcurrent), Entries.contains_iff.1 hroot⟩
      exact honly.get?_set v
    · rw [Context.set, if_neg hcurrent, if_neg hroot]
      exact get?_setCurrent_self c name v

theorem get?_set_of_ne (c : Context V) {other : String} (v : V) (h : other ≠ name) :
    (c.set name v).get? other = c.get? other :=
  (SameBinding.set c v h).get?

/-! ### Assignments in a scope of their own -/

def setAll (c : Context V) (sets : List (String × V)) : Context V :=
  sets.foldl (fun c e => c.set e.1 e.2) c

theorem setAll_append_singleton (c : Context V) (sets : List (String × V)) (e : String × V) :
    c.setAll (sets ++ [e]) = (c.setAll sets).set e.1 e.2 := List.foldl_append

theorem Frame.setAll (c : Context V) (sets : List (String × V)) : c.Frame (c.setAll sets) := by
  induction sets generalizing c with
  | nil => exact .refl c
  | cons e rest ih => exact (Frame.set c e.1 e.2).trans (ih _)

theorem RootOnly.setAll (h : c.RootOnly name) (sets : List (String × V)) :
    (c.setAll sets).RootOnly name ∧ (c.setAll sets).root.bindings.get? name =
      ((Entries.ofList sets).get? name).or (c.root.bindings.get? name) := by
  induction sets using List.reverseRecOn with
  | nil => exact ⟨h, rfl⟩
  | append_singleton sets e ih =>
    obtain ⟨honly, hroot⟩ := ih
    rw [setAll_append_singleton, Entries.ofList_append_singleton]
    by_cases hname : name = e.1
    · subst hname
      rw [Entries.get?_put_self]
      exact ⟨honly.set e.2, honly.get?_root_set e.2⟩
    · have hsame := SameBinding.set (c.setAll sets) e.2 hname
      rw [Entries.get?_put_of_ne _ _ hname]
      exact ⟨honly.of_same hsame, hsame.root.trans hroot⟩

def local? (c : Context V) (name : String) : Option V :=
  c.inner.head?.bind fun scope => scope.bindings.get? name

theorem get?_eq_local? (c : Context V) (name : String) :
    c.get? name = (c.local? name).or (c.root.bindings.get? name) := by
  obtain ⟨_ | ⟨scope, rest⟩, root⟩ := c
  · simp only [Context.get?, current, List.headD_nil, local?, List.head?_nil, Option.bind_none,
      Option.none_or]
    cases root.bindings.get? name <;> rfl
  · simp only [Context.get?, current, List.headD_cons, local?, List.head?_cons, Option.bind_some]
    cases scope.bindings.get? name <;> rfl

theorem local?_eq_none : c.local? name = none ↔
    (c.depth ≠ 0 → name ∉ c.current.bindings.names) := by
  obtain ⟨_ | ⟨scope, rest⟩, root⟩ := c
  · simp [local?, depth]
  · simp [local?, depth, current, Entries.get?_eq_none]

/-- Assignments in a scope that is closed again are seen behind it where they went to the root and the
scope behind it does not bind the name itself. -/
theorem get?_pop_setAll_push (c : Context V) (sets : List (String × V)) (name : String) :
    (c.push.setAll sets).pop.get? name =
      if name ∈ c.root.bindings.names ∧ c.local? name = none then
        ((Entries.ofList sets).get? name).or (c.get? name)
      else c.get? name := by
  have hframe : c.push.Frame (c.push.setAll sets) := .setAll c.push sets
  have hread : (c.push.setAll sets).pop.get? name =
      (c.local? name).or ((c.push.setAll sets).root.bindings.get? name) := by
    have hinner : (c.push.setAll sets).pop.inner = c.inner := hframe.between
    rw [get?_eq_local?, local?, hinner]
    rfl
  rw [hread, get?_eq_local? c]
  by_cases hroot : name ∈ c.root.bindings.names
  · rw [((RootOnly.push hroot).setAll sets).2]
    cases hvalue : c.local? name with
    | none => exact (if_pos ⟨hroot, rfl⟩).symm
    | some v => exact (if_neg fun h => Option.some_ne_none v h.2).symm
  · have hnames : (c.push.setAll sets).root.bindings.names = c.root.bindings.names :=
      hframe.rootNames (Nat.succ_pos c.inner.length)
    rw [if_neg fun h => hroot h.1, Entries.get?_eq_none.2 (hnames ▸ hroot),
      Entries.get?_eq_none.2 hroot]

/-- The root is in reach of the inner scope, the scope between them is not. -/
example (a b : V) :
    let c := ((ofBindings [("x", a)]).push.set "i" a).push.setAll [("x", b), ("i", b)]
    c.pop.get? "x" = some b ∧ c.pop.get? "i" = some a := ⟨rfl, rfl⟩

end Context
end Blockwork
