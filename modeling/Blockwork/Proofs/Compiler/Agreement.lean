import Blockwork.Compiler.Statements
import Blockwork.Proofs.Interpreter.Breaks
import Blockwork.Proofs.Target.Execution

/-! The values of a run as values of a compiled program, and stores that agree with scopes. -/

namespace Blockwork

open Target

namespace Value

mutual

def target : Value → Target.Value
  | .null => .null
  | .boolean b => .boolean b
  | .number x => .number x
  | .text s => .text s
  | .list items => .list (targets items)

def targets : List Value → List Target.Value
  | [] => []
  | item :: rest => item.target :: targets rest

end

theorem targets_eq_map (items : List Value) : targets items = items.map target := by
  induction items with
  | nil => rfl
  | cons item rest ih => exact congrArg (item.target :: ·) ih

mutual

theorem display_target : ∀ v : Value, v.target.display = v.display
  | .null | .boolean _ | .number _ | .text _ => rfl
  | .list items => displayItems_targets items

theorem displayItems_targets : ∀ items : List Value,
    Target.Value.displayItems (targets items) = displayItems items
  | [] => rfl
  | [item] => by
    have hitem := display_target item
    cases item <;> simp_all [targets, target, Target.Value.displayItems, displayItems]
  | item :: next :: rest => by
    have hitem := display_target item
    have hrest := displayItems_targets (next :: rest)
    cases item <;> simp_all [targets, target, Target.Value.displayItems, displayItems]

end

mutual

theorem equals_target : ∀ v w : Value, v.target.equals w.target = v.equals w
  | .null, w | .boolean _, w | .number _, w | .text _, w => by cases w <;> rfl
  | .list xs, .list ys => equalItems_targets xs ys
  | .list _, .null | .list _, .boolean _ | .list _, .number _ | .list _, .text _ => rfl

theorem equalItems_targets : ∀ xs ys : List Value,
    Target.Value.equalItems (targets xs) (targets ys) = equalItems xs ys
  | [], ys => by cases ys <;> rfl
  | _ :: _, [] => rfl
  | x :: xs, y :: ys => by
    show (x.target.equals y.target && Target.Value.equalItems (targets xs) (targets ys)) =
      (x.equals y && equalItems xs ys)
    rw [equals_target x y, equalItems_targets xs ys]

end

theorem order_target {v w : Value} {o : Order} (h : Order.ofValues v w = .ok o) :
    v.target.order w.target = o := by
  unfold Order.ofValues at h
  split at h
  · exact Except.ok.inj h
  · exact Except.ok.inj h
  · exact absurd h (by simp)

theorem holds_target {comparison : Comparison} {v w : Value} {b : Bool}
    (h : comparison.holds v w = .ok b) :
    comparison.operator.apply v.target w.target = .boolean b := by
  cases comparison with
  | equal =>
    obtain rfl := Except.ok.inj h
    rw [← equals_target]
    rfl
  | notEqual =>
    obtain rfl := Except.ok.inj h
    rw [← equals_target]
    rfl
  | _ =>
    unfold Comparison.holds at h
    cases ho : Order.ofValues v w with
    | error e =>
      rw [ho] at h
      exact absurd h (by simp [Except.map])
    | ok o =>
      rw [ho] at h
      obtain rfl := Except.ok.inj h
      simp [Comparison.operator, BinaryOp.apply, order_target ho]

theorem truthy_of_asCondition {v : Value} {b : Bool} (h : v.asCondition = .ok b) :
    v.target.truthy = b := by
  unfold asCondition at h
  split at h
  · exact Except.ok.inj h
  · exact Except.ok.inj h
  · exact absurd h (by simp)

theorem asNumber_eq_ok {v : Value} {x : Float} : v.asNumber = .ok x ↔ v = .number x := by
  cases v <;> simp [asNumber]

theorem asList_eq_ok {v : Value} {items : List Value} : v.asList = .ok items ↔ v = .list items := by
  cases v <;> simp [asList]

end Value

/-! ### Agreement -/

/-- The store has the values of the root under its names, and no open scope binds a name. -/
structure Agrees (names : List String) (s : Scopes Value) (σ : Store) : Prop where
  root : s.root.names = names
  inner : ∀ bindings ∈ s.inner, bindings = []
  values : ∀ name v, s.root.get? name = some v → σ.get? name = some v.target

namespace Agrees

variable {names : List String} {s : Scopes Value} {σ : Store} {name : String}

theorem current (h : Agrees names s σ) : s.current = s.root ∨ s.current = [] := by
  obtain ⟨inner, root⟩ := s
  cases inner with
  | nil => exact .inl rfl
  | cons bindings rest => exact .inr (h.inner bindings (List.mem_cons_self ..))

theorem get?_eq (h : Agrees names s σ) (name : String) : s.get? name = s.root.get? name := by
  unfold Scopes.get?
  rcases h.current with hcurrent | hcurrent
  · rw [hcurrent]
    cases s.root.get? name <;> rfl
  · rw [hcurrent]
    rfl

theorem get (h : Agrees names s σ) (hname : name ∈ names) :
    ∃ v, s.get? name = some v ∧ σ.get? name = some v.target := by
  rw [← h.root] at hname
  cases hv : s.root.get? name with
  | none => exact absurd hname (Entries.get?_eq_none.1 hv)
  | some v => exact ⟨v, (h.get?_eq name).trans hv, h.values name v hv⟩

theorem set (h : Agrees names s σ) (hname : name ∈ names) (v : Value) :
    Agrees names (s.set name v) (σ.put name v.target) := by
  have hcontains : s.root.contains name = true := Entries.contains_iff.2 (h.root ▸ hname)
  have hset : s.set name v = { s with root := s.root.put name v } := by
    unfold Scopes.set
    obtain ⟨inner, root⟩ := s
    cases inner with
    | nil => exact if_pos hcontains
    | cons bindings rest =>
      obtain rfl := h.inner bindings (List.mem_cons_self ..)
      exact if_pos hcontains
  rw [hset]
  refine ⟨(Entries.names_put_of_contains v hcontains).trans h.root, h.inner, fun other w hw => ?_⟩
  by_cases hother : other = name
  · subst hother
    have hw : (s.root.put other v).get? other = some w := hw
    rw [Entries.get?_put_self] at hw ⊢
    exact congrArg (fun v => some v.target) (Option.some.inj hw)
  · have hw : (s.root.put name v).get? other = some w := hw
    rw [Entries.get?_put_of_ne _ _ hother] at hw ⊢
    exact h.values other w hw

theorem put (h : Agrees names s σ) (hname : name ∉ names) (w : Target.Value) :
    Agrees names s (σ.put name w) := by
  refine ⟨h.root, h.inner, fun other v hv => ?_⟩
  have hother : other ≠ name := by
    rintro rfl
    rw [Entries.get?_eq_none.2 (h.root ▸ hname)] at hv
    exact absurd hv (by simp)
  rw [Entries.get?_put_of_ne _ _ hother]
  exact h.values other v hv

theorem push (h : Agrees names s σ) : Agrees names s.push σ := by
  refine ⟨h.root, ?_, h.values⟩
  intro bindings hb
  rcases List.mem_cons.1 hb with rfl | hb
  · rfl
  · exact h.inner bindings hb

theorem pop (h : Agrees names s σ) : Agrees names s.pop σ :=
  ⟨h.root, fun bindings hb => h.inner bindings (List.mem_of_mem_tail hb), h.values⟩

end Agrees
end Blockwork
