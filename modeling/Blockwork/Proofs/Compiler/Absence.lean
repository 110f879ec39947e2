import Blockwork.Proofs.Compiler.Agreement

/-! Values that may be absent. A variable without a value is null for a run and undefined for a
program, which has null besides. Texts and equality can tell the two apart; how much is known of a
value says where they do not. -/

namespace Blockwork

open Target

namespace Target.Value

mutual

def runtime : Target.Value → Blockwork.Value
  | .undefined | .null => .null
  | .boolean b => .boolean b
  | .number x => .number x
  | .text s => .text s
  | .list items => .list (runtimes items)

def runtimes : List Target.Value → List Blockwork.Value
  | [] => []
  | item :: rest => item.runtime :: runtimes rest

end

mutual

theorem runtime_target : ∀ v : Blockwork.Value, v.target.runtime = v
  | .null | .boolean _ | .number _ | .text _ => rfl
  | .list items => congrArg Blockwork.Value.list (runtimes_targets items)

theorem runtimes_targets : ∀ items : List Blockwork.Value,
    runtimes (Blockwork.Value.targets items) = items
  | [] => rfl
  | item :: rest => by
    show item.target.runtime :: runtimes (Blockwork.Value.targets rest) = item :: rest
    rw [runtime_target item, runtimes_targets rest]

end

mutual

theorem display_runtime : ∀ w : Target.Value, w ≠ .undefined → w.runtime.display = w.display
  | .undefined, h => absurd rfl h
  | .null, _ | .boolean _, _ | .number _, _ | .text _, _ => rfl
  | .list items, _ => displayItems_runtimes items

theorem displayItems_runtimes : ∀ items : List Target.Value,
    Blockwork.Value.displayItems (runtimes items) = displayItems items
  | [] => rfl
  | [item] => by
    have hitem := display_runtime item
    cases item <;> simp_all [runtimes, runtime, displayItems, Blockwork.Value.displayItems]
  | item :: next :: rest => by
    have hitem := display_runtime item
    have hrest := displayItems_runtimes (next :: rest)
    cases item <;> simp_all [runtimes, runtime, displayItems, Blockwork.Value.displayItems]

end

end Target.Value

namespace Value

def isPlain : Value → Bool
  | .boolean _ | .number _ | .text _ => true
  | .null | .list _ => false

theorem target_of_isPlain {v : Value} {w : Target.Value} (h : v.isPlain = true)
    (hw : w.runtime = v) : w = v.target := by
  subst hw
  cases w with
  | boolean | number | text => rfl
  | undefined | null | list => exact absurd h Bool.false_ne_true

theorem equals_of_isPlain {v v' : Value} {w' : Target.Value} (h : v.isPlain = true)
    (hw' : w'.runtime = v') :
    v.target.equals w' = v.equals v' ∧ w'.equals v.target = v'.equals v := by
  subst hw'
  cases v with
  | boolean | number | text => cases w' <;> exact ⟨rfl, rfl⟩
  | null | list => exact absurd h Bool.false_ne_true

theorem isPlain_of_order {v v' : Value} {o : Order} (h : Order.ofValues v v' = .ok o) :
    v.isPlain = true ∧ v'.isPlain = true := by
  unfold Order.ofValues at h
  split at h
  · exact ⟨rfl, rfl⟩
  · exact ⟨rfl, rfl⟩
  · exact absurd h (by simp)

end Value

/-- What is known of the value that a program has where a run has some value. -/
inductive Presence where
  /-- What is null for the run may be undefined. -/
  | unknown
  /-- The value is not undefined, but it may be a list with such items. -/
  | present
  /-- Nothing in the value is undefined. -/
  | exact
  /-- Besides, the value is neither null nor a list. -/
  | plain
deriving DecidableEq

namespace Presence

def Fits : Presence → Value → Target.Value → Prop
  | .unknown, v, w => w.runtime = v
  | .present, v, w => w.runtime = v ∧ w ≠ .undefined
  | .exact, v, w => w = v.target
  | .plain, v, w => w = v.target ∧ v.isPlain = true

def isExact : Presence → Bool
  | .exact | .plain => true
  | .unknown | .present => false

def comparable (p q : Presence) : Bool := p.isExact && q.isExact || p = .plain || q = .plain

variable {p q : Presence} {v v' : Value} {w w' : Target.Value}

namespace Fits

theorem eq_target (h : p.Fits v w) (hp : p.isExact = true) : w = v.target := by
  cases p with
  | exact => exact h
  | plain => exact h.1
  | unknown | present => exact absurd hp Bool.false_ne_true

theorem runtime (h : p.Fits v w) : w.runtime = v := by
  cases p with
  | unknown => exact h
  | present => exact h.1
  | exact => exact h ▸ Target.Value.runtime_target v
  | plain => exact h.1 ▸ Target.Value.runtime_target v

theorem ne_undefined (h : p.Fits v w) (hp : p ≠ .unknown) : w ≠ .undefined := by
  have htarget : v.target ≠ .undefined := by cases v <;> exact nofun
  cases p with
  | unknown => exact absurd rfl hp
  | present => exact h.2
  | exact => exact h ▸ htarget
  | plain => exact h.1 ▸ htarget

theorem display (h : p.Fits v w) (hp : p ≠ .unknown) : w.display = v.display := by
  rw [← h.runtime, Target.Value.display_runtime w (h.ne_undefined hp)]

theorem isEmpty_display (h : p.Fits v w) : w.display.isEmpty = v.display.isEmpty := by
  rw [← h.runtime]
  by_cases hw : w = .undefined
  · subst hw
    decide
  · rw [Target.Value.display_runtime w hw]

theorem equals (h : p.Fits v w) (h' : q.Fits v' w') (hpq : p.comparable q = true) :
    w.equals w' = v.equals v' := by
  simp only [comparable, Bool.or_eq_true, Bool.and_eq_true, decide_eq_true_eq] at hpq
  obtain (⟨hp, hq⟩ | rfl) | rfl := hpq
  · rw [h.eq_target hp, h'.eq_target hq, Value.equals_target]
  · rw [h.1]
    exact (Value.equals_of_isPlain h.2 h'.runtime).1
  · rw [h'.1]
    exact (Value.equals_of_isPlain h'.2 h.runtime).2

theorem holds {comparison : Comparison} {decided : Bool} (h : p.Fits v w) (h' : q.Fits v' w')
    (hequality : comparison = .equal ∨ comparison = .notEqual → p.comparable q = true)
    (hholds : comparison.holds v v' = .ok decided) :
    comparison.operator.apply w w' = .boolean decided := by
  cases comparison with
  | equal =>
    obtain rfl := Except.ok.inj hholds
    exact congrArg Target.Value.boolean (h.equals h' (hequality (.inl rfl)))
  | notEqual =>
    obtain rfl := Except.ok.inj hholds
    exact congrArg (fun b => Target.Value.boolean (!b)) (h.equals h' (hequality (.inr rfl)))
  | less | lessOrEqual | greater | greaterOrEqual =>
    cases ho : Order.ofValues v v' with
    | error failure =>
      rw [Comparison.holds, ho] at hholds
      exact absurd hholds (by simp [Except.map])
    | ok o =>
      obtain ⟨hv, hv'⟩ := Value.isPlain_of_order ho
      rw [Value.target_of_isPlain hv h.runtime, Value.target_of_isPlain hv' h'.runtime]
      exact Value.holds_target hholds

end Fits
end Presence
end Blockwork
