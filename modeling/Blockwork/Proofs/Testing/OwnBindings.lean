import Blockwork.Proofs.Context.Distinct
import Blockwork.Proofs.Testing.Expectations
import Blockwork.Proofs.Toml.Bindings

/-! The bindings of a run as what is expected of it. The TOML form of a value stands for one that equals
it, unless there is a NaN inside: that equals nothing, itself included. -/

namespace Blockwork

theorem Number.isNaN_of_beq {x y : Float} (h : (x == y) = true) : x.isNaN = false := by
  rw [← Bool.not_eq_true]
  intro hnan
  rw [beq_iff, (isNaN_iff x).1 hnan] at h
  cases h

namespace Value

mutual

theorem isComparable_of_equals : ∀ {v v' : Value}, v.equals v' = true → v.IsComparable
  | .null, _, _ => fun x hx => by simp [leaves] at hx
  | .boolean b, _, _ => fun x hx => by simp [leaves] at hx
  | .number x, v', h => fun y hy => by
    obtain rfl : y = x := by simpa [leaves] using hy
    cases v' with
    | number z => exact Number.isNaN_of_beq h
    | _ => cases h
  | .text s, _, _ => fun x hx => by simp [leaves] at hx
  | .list items, v', h => by
    cases v' with
    | list items' => exact isComparable_of_equalItems h
    | _ => cases h

theorem isComparable_of_equalItems : ∀ {items items' : List Value},
    equalItems items items' = true → ∀ x, .number x ∈ leavesOfItems items → x.isNaN = false
  | [], _, _ => fun x hx => absurd hx List.not_mem_nil
  | item :: rest, items', h => fun x hx => by
    cases items' with
    | nil => cases h
    | cons item' rest' =>
      obtain ⟨hitem, hrest⟩ := Bool.and_eq_true_iff.1 h
      rcases List.mem_append.1 hx with hx | hx
      · exact isComparable_of_equals hitem x hx
      · exact isComparable_of_equalItems hrest x hx

end

end Value

namespace Testing

variable {bound : Entries Value} {name : String} {v : Value} {item : Toml}

theorem isBound_toml_iff (hget : bound.get? name = some v) (hitem : v.toml? = some item) :
    IsBound bound name item ↔ v.IsComparable := by
  constructor
  · rintro ⟨actual, expected, hactual, -, hequal⟩
    rw [hget] at hactual
    obtain rfl := Option.some.inj hactual
    exact Value.isComparable_of_equals hequal
  · intro hcomparable
    obtain ⟨expected, hexpected, hequal⟩ := Value.exists_ofToml hitem hcomparable
    exact ⟨v, expected, hget, hexpected, hequal⟩

theorem mem_sorted_entries {chosen : Entries Value} {b : String × Toml} :
    b ∈ Entries.sorted (Bindings.entries chosen) ↔ ∃ v, (b.1, v) ∈ chosen ∧ v.toml? = some b.2 := by
  rw [Entries.sorted, List.mem_mergeSort, Bindings.entries, List.mem_filterMap]
  constructor
  · rintro ⟨⟨name, v⟩, hmem, hb⟩
    obtain ⟨item, hitem, rfl⟩ := Option.map_eq_some_iff.1 hb
    exact ⟨v, hmem, hitem⟩
  · rintro ⟨v, hmem, hitem⟩
    exact ⟨(b.1, v), hmem, by simp [hitem]⟩

/-- A run meets the expectation that some of its bindings hold, each in its TOML form, just if no NaN is
among them, at any depth of lists. -/
theorem run_meets_own_bindings {w : Workspace Kind} {limit : Nat} {globals : List (String × Value)}
    {execution : Workspace.Execution} (hrun : w.run limit globals = .ok execution)
    {chosen : Entries Value} (hchosen : chosen ⊆ execution.bindings)
    (hforms : ∀ b ∈ chosen, b.2.toml?.isSome = true) :
    checkBindings execution.bindings (Entries.sorted (Bindings.entries chosen)) = .ok () ↔
      ∀ b ∈ chosen, b.2.IsComparable := by
  have hget : ∀ b ∈ chosen, execution.bindings.get? b.1 = some b.2 := fun b hb =>
    (Entries.get?_eq_some_iff (nodup_names_of_run hrun)).2 (hchosen hb)
  rw [checkBindings_eq_ok_iff]
  constructor
  · intro h b hb
    obtain ⟨item, hitem⟩ := Option.isSome_iff_exists.1 (hforms b hb)
    have hbound := h (b.1, item) (mem_sorted_entries.2 ⟨b.2, hb, hitem⟩)
    exact (isBound_toml_iff (hget b hb) hitem).1 hbound
  · intro h b hb
    obtain ⟨v, hv, hitem⟩ := mem_sorted_entries.1 hb
    exact (isBound_toml_iff (hget _ hv) hitem).2 (h _ hv)

def hosted (globals : Entries Value) : Workspace.Execution := ⟨.null, Entries.ofList globals⟩

theorem run_empty (limit : Nat) (globals : Entries Value) :
    (⟨[]⟩ : Workspace Kind).run limit globals = .ok (hosted globals) := rfl

def mixedBindings : Entries Value :=
  [("far", .number (1 / 0)), ("zero", .number (-0.0)), ("unset", .null),
    ("all", .list [.number 1e16, .list [.text "a", .boolean true, .number 7]])]

theorem mixedBindings_met :
    (⟨[]⟩ : Workspace Kind).run 1 mixedBindings = .ok (hosted mixedBindings) ∧
    (mixedBindings.eraseIdx 2 ⊆ (hosted mixedBindings).bindings ∧
      ∀ b ∈ mixedBindings.eraseIdx 2, b.2.toml?.isSome = true) ∧
    checkBindings (hosted mixedBindings).bindings
      (Entries.sorted (Bindings.entries (mixedBindings.eraseIdx 2))) = .ok () := by
  have hrun := run_empty 1 mixedBindings
  have hchosen : mixedBindings.eraseIdx 2 ⊆ (hosted mixedBindings).bindings := by
    have hnames : mixedBindings.names.Nodup := by decide
    have hbindings : (hosted mixedBindings).bindings = mixedBindings := Entries.ofList_of_nodup hnames
    rw [hbindings]
    exact (List.eraseIdx_sublist ..).subset
  have hforms : ∀ b ∈ mixedBindings.eraseIdx 2, b.2.toml?.isSome = true := by
    simp only [mixedBindings, List.eraseIdx, List.forall_mem_cons]
    exact ⟨by decide +kernel, by decide +kernel, by decide +kernel, List.forall_mem_nil _⟩
  refine ⟨hrun, ⟨hchosen, hforms⟩, (run_meets_own_bindings hrun hchosen hforms).2 ?_⟩
  intro b hb x hx
  simp only [mixedBindings, List.eraseIdx, List.mem_cons, List.not_mem_nil, or_false] at hb
  obtain rfl | rfl | rfl := hb
  · obtain rfl : x = 1 / 0 := by simpa [Value.leaves] using hx
    rfl
  · obtain rfl : x = -0.0 := by simpa [Value.leaves] using hx
    rfl
  · obtain rfl | rfl : x = 1e16 ∨ x = 7 := by
      simpa [Value.leaves, Value.leavesOfItems] using hx
    · rfl
    · rfl

/-- A NaN has a TOML form, and a run that leaves one does not meet it. -/
theorem nan_misses_itself : ¬ ∀ (w : Workspace Kind) (limit : Nat) (globals : List (String × Value))
    (execution : Workspace.Execution), w.run limit globals = .ok execution →
      ∀ chosen : Entries Value, chosen ⊆ execution.bindings →
        (∀ b ∈ chosen, b.2.toml?.isSome = true) →
          checkBindings execution.bindings (Entries.sorted (Bindings.entries chosen)) = .ok () := by
  intro h
  let bindings : Entries Value := [("x", .number (0 / 0))]
  have hform : ∀ b ∈ bindings, b.2.toml?.isSome = true := List.forall_mem_singleton.2 rfl
  have hmet := h ⟨[]⟩ 0 bindings _ (run_empty 0 bindings) bindings (List.Subset.refl _) hform
  have hcomparable : Value.IsComparable (.number (0 / 0)) := by
    have hbound := checkBindings_eq_ok_iff.1 hmet ("x", .float (0 / 0))
      (mem_sorted_entries.2 ⟨_, List.mem_singleton_self _, rfl⟩)
    exact (isBound_toml_iff rfl rfl).1 hbound
  have hnan : ((0 : Float) / 0).isNaN = true := by decide
  rw [hcomparable (0 / 0) (by simp [Value.leaves])] at hnan
  cases hnan

end Testing

end Blockwork
