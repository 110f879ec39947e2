import Blockwork.Proofs.Number.Neighbours
import Blockwork.Proofs.Number.Shortest

/-! The digits of a double are the fewest that read back, and among as few digits the nearest. -/

namespace Blockwork.Number

namespace Binary

variable {b d : Binary} {q q₁ q₂ : ℚ} {p : ℤ}

theorem Attracts.between (h₁ : b.Attracts q₁) (h₂ : b.Attracts q₂) (hlow : q₁ ≤ q) (hhigh : q ≤ q₂) :
    b.Attracts q := by
  rcases h₁ with h₁ | ⟨heven, h₁⟩
  · rcases h₂ with h₂ | ⟨heven, h₂⟩
    · exact .inl ⟨h₁.1.trans_le hlow, hhigh.trans_lt h₂.2⟩
    · exact .inr ⟨heven, h₁.1.le.trans hlow, hhigh.trans h₂.2⟩
  · exact .inr ⟨heven, h₁.1.trans hlow, hhigh.trans h₂.bounds.2⟩

theorem Attracts.le_of_lt (hb : b.IsDouble) (hd : d.IsDouble) (h : b.Attracts q₁) (h' : d.Attracts q₂)
    (hlt : b.value < d.value) : q₁ ≤ q₂ := by
  have hsucc := hb.succ_le hd hlt
  have hpred := hd.le_pred hb hlt
  have hbelow := h.bounds.2
  have habove := h'.bounds.1
  unfold value at hsucc hpred
  nlinarith

theorem Attracts.ratio (hten : 10 ≤ b.significand) (h₁ : b.Attracts q₁) (h₂ : b.Attracts q₂) :
    9 * q₂ < 10 * q₁ := by
  have hunit : (0 : ℚ) < 2 ^ b.exponent := by positivity
  have hten' : (10 : ℚ) ≤ b.significand := by exact_mod_cast hten
  have hreach := b.reach_bounds.2
  have hlow := h₁.bounds.1
  have hhigh := h₂.bounds.2
  have hends : 9 * ((b.significand + 1 / 2) * 2 ^ b.exponent : ℚ) <
      10 * ((b.significand - b.reach) * 2 ^ b.exponent) := by nlinarith
  linarith

theorem Attracts.lt_ten_zpow (h : b.Attracts q) {j : ℤ}
    (hj : (2 : ℚ) ^ (b.significand.log2 + 1 + b.exponent : ℤ) ≤ 10 ^ j) : q < 10 ^ j := by
  have hunit : (0 : ℚ) < 2 ^ b.exponent := by positivity
  have hbits : (b.significand + 1 : ℚ) ≤ (2 ^ (b.significand.log2 + 1) : ℕ) := by
    exact_mod_cast Nat.lt_log2_self
  calc q ≤ (b.significand + 1 / 2) * 2 ^ b.exponent := h.bounds.2
    _ < (2 ^ (b.significand.log2 + 1) : ℕ) * 2 ^ b.exponent := by
        refine mul_lt_mul_of_pos_right ?_ hunit
        linarith
    _ = 2 ^ (b.significand.log2 + 1 + b.exponent : ℤ) := by
        rw [zpow_add₀ two_ne_zero, ← Nat.cast_add_one, zpow_natCast]
        push_cast
        rfl
    _ ≤ 10 ^ j := hj

end Binary

namespace Rounding

variable {b : Binary} {p : ℤ} {tie : Tie} {digits : ℕ}

theorem rest_lt_half_iff (b : Binary) (p : ℤ) :
    2 * (((ofBinary b).inUnits p).value % ((ofBinary b).inUnits p).denominator) <
        ((ofBinary b).inUnits p).denominator ↔
      b.value - below b p * 10 ^ p < (below b p + 1 : ℕ) * 10 ^ p - b.value := by
  rw [← Nat.cast_lt (α := ℚ), Nat.cast_mul, Nat.cast_two, rest_eq, denominator_eq, ← mul_assoc,
    mul_lt_mul_iff_of_pos_right (common_pos b.exponent p)]
  push_cast
  constructor <;> intro h <;> linarith

theorem half_lt_rest_iff (b : Binary) (p : ℤ) :
    ((ofBinary b).inUnits p).denominator <
        2 * (((ofBinary b).inUnits p).value % ((ofBinary b).inUnits p).denominator) ↔
      (below b p + 1 : ℕ) * 10 ^ p - b.value < b.value - below b p * 10 ^ p := by
  rw [← Nat.cast_lt (α := ℚ), Nat.cast_mul, Nat.cast_two, rest_eq, denominator_eq, ← mul_assoc,
    mul_lt_mul_iff_of_pos_right (common_pos b.exponent p)]
  push_cast
  constructor <;> intro h <;> linarith

/-- A multiple in the interval is beyond one of the two beside the double, which is in the interval too. -/
theorem attracts_beside {n : ℕ} (hn : b.Attracts (n * 10 ^ p)) :
    (b.Attracts (below b p * 10 ^ p) ∧ b.value - below b p * 10 ^ p ≤ |n * 10 ^ p - b.value|) ∨
      (b.Attracts ((below b p + 1 : ℕ) * 10 ^ p) ∧
        (below b p + 1 : ℕ) * 10 ^ p - b.value ≤ |n * 10 ^ p - b.value|) := by
  have hlow := below_le b p
  have hhigh := lt_below_succ b p
  have hten : (0 : ℚ) < 10 ^ p := by positivity
  have hself := b.attracts_value
  rcases Nat.lt_or_ge (below b p) n with hlt | hge
  · have hle : ((below b p + 1 : ℕ) : ℚ) * 10 ^ p ≤ n * 10 ^ p :=
      mul_le_mul_of_nonneg_right (by exact_mod_cast hlt) hten.le
    exact .inr ⟨hself.between hn hhigh.le hle, (by linarith : _ ≤ _).trans (le_abs_self _)⟩
  · have hle : (n : ℚ) * 10 ^ p ≤ below b p * 10 ^ p :=
      mul_le_mul_of_nonneg_right (by exact_mod_cast hge) hten.le
    exact .inl ⟨hn.between hself hle hlow, (by linarith : _ ≤ _).trans (neg_le_abs _)⟩

theorem nearest?_eq_none {r : Rounding} (h : r.nearest? tie = none) :
    r.contains (r.value / r.denominator) = false ∧
      r.contains (r.value / r.denominator + 1) = false := by
  unfold nearest? at h
  dsimp only at h
  cases hbelow : r.contains (r.value / r.denominator) <;>
    cases habove : r.contains (r.value / r.denominator + 1) <;> simp only [hbelow, habove] at h
  · exact ⟨rfl, rfl⟩
  · cases h
  · cases h
  · repeat' split at h
    all_goals cases h

/-- One of the two multiples beside a number is chosen. If the other one is in the interval too, it is
not nearer. -/
theorem nearest?_eq_some {r : Rounding} (h : r.nearest? tie = some digits) :
    (digits = r.value / r.denominator ∧ (r.contains (r.value / r.denominator + 1) = true →
      2 * (r.value % r.denominator) ≤ r.denominator)) ∨
    (digits = r.value / r.denominator + 1 ∧ (r.contains (r.value / r.denominator) = true →
      r.denominator ≤ 2 * (r.value % r.denominator))) := by
  unfold nearest? at h
  dsimp only at h
  cases hbelow : r.contains (r.value / r.denominator) <;>
    cases habove : r.contains (r.value / r.denominator + 1) <;> simp only [hbelow, habove] at h
  · cases h
  · exact .inr ⟨(Option.some.inj h).symm, fun h => absurd h Bool.false_ne_true⟩
  · exact .inl ⟨(Option.some.inj h).symm, fun h => absurd h Bool.false_ne_true⟩
  · split at h
    · rename_i hlt
      exact .inl ⟨(Option.some.inj h).symm, fun _ => hlt.le⟩
    · rename_i hge
      split at h
      · exact .inr ⟨(Option.some.inj h).symm, fun _ => not_lt.1 hge⟩
      · rename_i hle
        have hcases : digits = r.value / r.denominator ∨ digits = r.value / r.denominator + 1 := by
          cases tie <;> dsimp only at h
          · exact .inr (Option.some.inj h).symm
          · split at h
            · exact .inl (Option.some.inj h).symm
            · exact .inr (Option.some.inj h).symm
        exact hcases.imp (⟨·, fun _ => not_lt.1 hle⟩) (⟨·, fun _ => not_lt.1 hge⟩)

theorem not_attracts_of_nearest? (hpos : 0 < b.significand)
    (h : ((ofBinary b).inUnits p).nearest? tie = none) (n : ℕ) : ¬ b.Attracts (n * 10 ^ p) := by
  obtain ⟨hbelow, habove⟩ := nearest?_eq_none h
  intro hn
  rcases attracts_beside hn with ⟨hside, -⟩ | ⟨hside, -⟩
  · exact Bool.false_ne_true (hbelow.symm.trans ((contains_iff hpos).2 hside))
  · exact Bool.false_ne_true (habove.symm.trans ((contains_iff hpos).2 hside))

theorem abs_sub_le_of_nearest? (hpos : 0 < b.significand)
    (h : ((ofBinary b).inUnits p).nearest? tie = some digits) {n : ℕ} (hn : b.Attracts (n * 10 ^ p)) :
    |digits * 10 ^ p - b.value| ≤ |n * 10 ^ p - b.value| := by
  have hlow := below_le b p
  have hhigh := lt_below_succ b p
  rcases nearest?_eq_some h with ⟨hdigits, hother⟩ | ⟨hdigits, hother⟩
  · obtain rfl : digits = below b p := hdigits
    rw [abs_of_nonpos (sub_nonpos.2 hlow), neg_sub]
    rcases attracts_beside hn with ⟨-, hnear⟩ | ⟨hside, hnear⟩
    · exact hnear
    · have hle := hother ((contains_iff hpos).2 hside)
      exact (not_lt.1 (mt (half_lt_rest_iff b p).2 (not_lt.2 hle))).trans hnear
  · obtain rfl : digits = below b p + 1 := hdigits
    rw [abs_of_nonneg (sub_nonneg.2 hhigh.le)]
    rcases attracts_beside hn with ⟨hside, hnear⟩ | ⟨-, hnear⟩
    · have hle := hother ((contains_iff hpos).2 hside)
      exact (not_lt.1 (mt (rest_lt_half_iff b p).2 (not_lt.2 hle))).trans hnear
    · exact hnear

end Rounding

/-! ### The shortest digits -/

section Shortest

variable {b : Binary} {tie : Rounding.Tie}

/-- What the shortest decimal of a double is among all decimals that read back: its exponent is the
greatest, and no multiple of that power of ten is nearer. -/
theorem Binary.shortest_spec (hb : b.IsDouble) (hpos : 0 < b.significand) (tie : Rounding.Tie) :
    (∀ (n : ℕ) (p : ℤ), b.Attracts (n * 10 ^ p) → p ≤ (b.shortest tie).exponent) ∧
    ∀ n : ℕ, b.Attracts (n * 10 ^ (b.shortest tie).exponent) →
      |(b.shortest tie).digits * 10 ^ (b.shortest tie).exponent - b.value| ≤
        |n * 10 ^ (b.shortest tie).exponent - b.value| := by
  obtain ⟨above, j, hcoarse, -, hexponent, hdigits, hnone⟩ := Binary.shortest_first hb hpos tie
  rw [hexponent]
  refine ⟨fun n p hn => ?_, fun n hn => Rounding.abs_sub_le_of_nearest? hpos hdigits hn⟩
  by_contra hgt
  rcases le_or_gt p above with hle | hlt
  · obtain ⟨i, hi⟩ := Int.le.dest hle
    have hp : p = above - i := by omega
    rw [hp] at hn
    exact Rounding.not_attracts_of_nearest? hpos (hnone i (by omega)) n hn
  · -- the only multiple below such a power of ten is zero
    have hten : (10 : ℚ) ^ above ≤ 10 ^ p := zpow_le_zpow_right₀ (by norm_num) hlt.le
    have hbelow := hn.lt_ten_zpow (hcoarse.trans hten)
    have hn1 : (n : ℚ) < 1 := by
      by_contra hge
      have hunit : (0 : ℚ) < 10 ^ p := by positivity
      nlinarith
    have hn0 : n = 0 := by
      have : n < 1 := by exact_mod_cast hn1
      omega
    have := hn.pos hpos
    rw [hn0] at this
    simp at this

end Shortest

end Blockwork.Number
