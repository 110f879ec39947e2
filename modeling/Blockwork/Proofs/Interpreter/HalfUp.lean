import Blockwork.Proofs.Interpreter.CountedRounds
import Blockwork.Proofs.Number.HalfUp

/-! Blocks that round to the nearest whole number. -/

namespace Blockwork

open Number

variable {b : Block Kind} {limit : ℕ} {c c₁ : Context Value} {x : Float} {q : ℚ}

theorem outcome_round {rounding : Rounding} (hkind : b.kind = .round)
    (hop : (b.runParts limit).option "OP" Rounding.options = .ok rounding)
    (hnum : outcome ((b.runParts limit).evaluateNumber "NUM") c = (.ok x, c₁)) :
    outcome (b.evaluate limit) c = (.ok (.number (rounding.apply x)), c₁) := by
  rw [b.evaluate_eq, hkind]
  exact bind_eq_ok.2 ⟨_, _, Run.lift_eq_ok.2 ⟨hop, rfl⟩, bind_eq_ok.2 ⟨_, _, hnum, rfl⟩⟩

/-- A whole number slips just if it is odd and its neighbours are one away. -/
theorem slips_int_iff (n : ℤ) : Slips n ↔ Odd n ∧ 2 ^ 52 < |n| ∧ |n| < 2 ^ 53 := by
  constructor
  · rintro (h | ⟨k, hk, hodd⟩)
    · -- the double below one half is between two whole numbers
      have hlow : (0 : ℚ) < n := by rw [h]; norm_num
      have hhigh : (n : ℚ) < 1 := by rw [h]; norm_num
      have hlow' : 0 < n := by exact_mod_cast hlow
      have hhigh' : n < 1 := by exact_mod_cast hhigh
      omega
    · obtain rfl : n = k := by exact_mod_cast hk
      exact hodd
  · exact fun h => .inr ⟨n, rfl, h⟩

/-- Rounding a finite number gives the floor of its exact sum with one half, but for the double below
one half and the odd numbers whose neighbours are one away, which it gives the next whole number.
So the other whole numbers stay as they are. -/
theorem round_half_up (hkind : b.kind = .round)
    (hop : (b.runParts limit).option "OP" Rounding.options = .ok .nearest)
    (hnum : outcome ((b.runParts limit).evaluateNumber "NUM") c = (.ok x, c₁))
    (hx : value? x = some q) :
    ∃ y, outcome (b.evaluate limit) c = (.ok (.number y), c₁) ∧
      (value? y = some (⌊q + 1 / 2⌋ : ℚ) ↔ ¬ Slips q) ∧
      (Slips q → value? y = some ((⌊q + 1 / 2⌋ + 1 : ℤ) : ℚ)) ∧
      ∀ n : ℤ, q = n → (value? y = some q ↔ ¬ (Odd n ∧ 2 ^ 52 < |n| ∧ |n| < 2 ^ 53)) := by
  have hiff : value? (roundHalfUp x) = some (⌊q + 1 / 2⌋ : ℚ) ↔ ¬ Slips q := by
    refine ⟨fun hstays hslips => ?_, value?_roundHalfUp hx⟩
    rw [value?_roundHalfUp_of_slips hx hslips, Option.some_inj, Int.cast_inj] at hstays
    omega
  refine ⟨_, outcome_round hkind hop hnum, hiff, value?_roundHalfUp_of_slips hx, ?_⟩
  rintro n rfl
  rw [floor_add_half, slips_int_iff] at hiff
  exact hiff

def roundBlock (text : String) : Block Kind :=
  ⟨.round, "math_round", "r", [("OP", "ROUND")], [numberSocket "NUM" text], [], [], []⟩

theorem evaluateNumber_roundBlock {text : String} {l : Literal} (hread : readNumber text = .ok l)
    (limit : ℕ) (c : Context Value) :
    outcome (((roundBlock text).runParts limit).evaluateNumber "NUM") c = (.ok l.value, c) :=
  outcome_numberSocket rfl hread c

theorem round_half_up_minus_half : ∃ x y : Float, value? x = some (-(1 / 2)) ∧
    outcome (((roundBlock "-0.5").runParts 1).evaluateNumber "NUM") {} = (.ok x, {}) ∧
    outcome ((roundBlock "-0.5").evaluate 1) {} = (.ok (.number y), {}) ∧
      (value? y = some (⌊(-(1 / 2) + 1 / 2 : ℚ)⌋ : ℚ) ↔ ¬ Slips (-(1 / 2))) ∧
      (Slips (-(1 / 2)) → value? y = some ((⌊(-(1 / 2) + 1 / 2 : ℚ)⌋ + 1 : ℤ) : ℚ)) ∧
      ∀ n : ℤ, (-(1 / 2) : ℚ) = n →
        (value? y = some (-(1 / 2)) ↔ ¬ (Odd n ∧ 2 ^ 52 < |n| ∧ |n| < 2 ^ 53)) := by
  obtain ⟨l, hread, hvalue⟩ := exists_readNumber "-0.5" ⟨true, 2 ^ 52, -53⟩ (by decide +kernel)
  have hx : value? l.value = some (-(1 / 2)) := by
    rw [hvalue]
    norm_num [Binary.signed, Binary.value]
  have hnum := evaluateNumber_roundBlock hread 1 {}
  obtain ⟨y, hresult⟩ := round_half_up rfl rfl hnum hx
  exact ⟨l.value, y, hx, hnum, hresult⟩

/-- A whole number of 53 bits becomes the next one, and a number below one half becomes one. -/
theorem whole_number_rounds_away : ∃ y z : Float,
    outcome ((roundBlock "4503599627370497").evaluate 1) {} = (.ok (.number y), {}) ∧
    value? y = some 4503599627370498 ∧
    outcome ((roundBlock "0.49999999999999994").evaluate 1) {} = (.ok (.number z), {}) ∧
    value? z = some 1 := by
  obtain ⟨l, hread, hvalue⟩ :=
    exists_readNumber "4503599627370497" ⟨false, 4503599627370497, 0⟩ (by decide +kernel)
  obtain ⟨k, hread', hvalue'⟩ :=
    exists_readNumber "0.49999999999999994" ⟨false, 2 ^ 53 - 1, -54⟩ (by decide +kernel)
  have hx : value? l.value = some ((4503599627370497 : ℤ) : ℚ) := by
    rw [hvalue]
    norm_num [Binary.signed, Binary.value]
  have hx' : value? k.value = some (1 / 2 - 2 ^ (-54 : ℤ)) := by
    rw [hvalue']
    norm_num [Binary.signed, Binary.value]
  have hunit := roundHalfUp_of_unit hx (by norm_num) (by norm_num) (by norm_num)
  refine ⟨_, _, outcome_round rfl rfl (evaluateNumber_roundBlock hread 1 {}), ?_,
    outcome_round rfl rfl (evaluateNumber_roundBlock hread' 1 {}), roundHalfUp_below_half hx'⟩
  norm_num at hunit
  exact hunit

end Blockwork
