import Blockwork.Proofs.Number.Neighbours
import Blockwork.Proofs.Number.Remainders

/-! The square root of a natural number as a double. A root without an end is rounded as the numbers
beside it, so that the rounded root lies between the same doubles as the exact one. -/

namespace Blockwork.Number

open Float.Model (UnpackedFloat Format totalExponent)
open Float.Model.UnpackedFloat

section Roots

variable {m n : ℕ} {e : ℤ}

theorem log2_sqrt_ge (hm : 0 < m) : m.log2 / 2 ≤ m.sqrt.log2 := by
  have hroot : 2 ^ (m.log2 / 2) ≤ m.sqrt := by
    rw [Nat.le_sqrt, ← Nat.pow_add]
    exact (Nat.pow_le_pow_right Nat.two_pos (by omega)).trans (Nat.log2_self_le hm.ne')
  exact (Nat.le_log2 (Nat.ne_of_gt ((Nat.two_pow_pos _).trans_le hroot))).2 hroot

/-- A number that has the whole root and is rounded as the exact root. -/
theorem exists_represents_sqrt (m : ℕ) : ∃ y : ℚ, m.sqrt ≤ y ∧ y < m.sqrt + 1 ∧
    Represents (.ofMantissaAndAccuracy m.sqrt
      (if m - m.sqrt * m.sqrt = 0 then .exact
        else .inexact (if m - m.sqrt * m.sqrt ≤ m.sqrt then .lt else .gt))) y := by
  split
  · exact ⟨m.sqrt, le_rfl, by linarith, rfl⟩
  · split
    · refine ⟨m.sqrt + 1 / 4, by linarith, by linarith, ?_⟩
      show (m.sqrt : ℚ) < _ ∧ _ < (m.sqrt + 1 / 2 : ℚ)
      exact ⟨by linarith, by linarith⟩
    · refine ⟨m.sqrt + 3 / 4, by linarith, by linarith, ?_⟩
      show (m.sqrt + 1 / 2 : ℚ) < _ ∧ _ < (m.sqrt + 1 : ℚ)
      exact ⟨by linarith, by linarith⟩

theorem sqrt_scaled_bounds {i : ℕ} {y : ℚ} (hlarge : 5 ≤ n) (hlow : (n * (2 ^ i * 2 ^ i)).sqrt ≤ y)
    (hhigh : y < (n * (2 ^ i * 2 ^ i)).sqrt + 1) : (n.sqrt : ℚ) ≤ y / 2 ^ i ∧ y / 2 ^ i ≤ n - 1 := by
  have hunit : (1 : ℚ) ≤ 2 ^ i := one_le_pow₀ one_le_two
  have hpos : (0 : ℚ) < 2 ^ i := by positivity
  constructor
  · have hroot : n.sqrt * 2 ^ i ≤ (n * (2 ^ i * 2 ^ i)).sqrt := by
      rw [Nat.le_sqrt]
      calc n.sqrt * 2 ^ i * (n.sqrt * 2 ^ i) = n.sqrt * n.sqrt * (2 ^ i * 2 ^ i) := by ring
        _ ≤ n * (2 ^ i * 2 ^ i) := Nat.mul_le_mul_right _ n.sqrt_le
    have hroot' : (n.sqrt * 2 ^ i : ℚ) ≤ (n * (2 ^ i * 2 ^ i)).sqrt := by exact_mod_cast hroot
    rw [le_div_iff₀ hpos]
    exact hroot'.trans hlow
  · have hsquare : ((n * (2 ^ i * 2 ^ i)).sqrt * (n * (2 ^ i * 2 ^ i)).sqrt : ℚ) ≤
        n * (2 ^ i * 2 ^ i) := by exact_mod_cast Nat.sqrt_le _
    have hlarge' : (5 : ℚ) ≤ n := by exact_mod_cast hlarge
    have hbelow : ((n * (2 ^ i * 2 ^ i)).sqrt : ℚ) ≤ (n - 2) * 2 ^ i := by
      refine le_of_not_gt fun hgt => ?_
      have hlonger := mul_self_lt_mul_self (mul_nonneg (by linarith) hpos.le) hgt
      have hlonger' : (n * (2 ^ i * 2 ^ i) : ℚ) ≤ (n - 2) * (n - 2) * (2 ^ i * 2 ^ i) :=
        mul_le_mul_of_nonneg_right (by nlinarith) (by positivity)
      linarith
    rw [div_le_iff₀ hpos]
    linarith

theorem sqrt_eq (hm : 0 < m) (he : e ≤ 0) (hn : (m * 2 ^ e : ℚ) = n) (hlarge : 5 ≤ n) :
    ∃ q : ℚ, n.sqrt ≤ q ∧ q ≤ n - 1 ∧
      ∀ b : Binary, b.IsDouble → ∀ hpos : 0 < b.significand, b.Attracts q →
        UnpackedFloat.sqrt Format.binary64 (.finite .positive m e hm) =
          .finite .positive b.significand b.exponent hpos := by
  obtain ⟨t, ht⟩ : ∃ t, t = min (e.ediv 2)
    (Format.binary64.targetExponent ((totalExponent m e + 1).ediv 2)) := ⟨_, rfl⟩
  have hediv : e.ediv 2 = e / 2 := rfl
  obtain ⟨k, hk⟩ : ∃ k : ℕ, (k : ℤ) = e - 2 * t := ⟨(e - 2 * t).toNat, by omega⟩
  obtain ⟨i, hi⟩ : ∃ i : ℕ, t = -(i : ℤ) := ⟨(-t).toNat, by omega⟩
  obtain ⟨w, hw⟩ : ∃ w, w = m * 2 ^ k := ⟨_, rfl⟩
  have hwpos : 0 < w := by
    rw [hw]
    positivity
  have hunit : (0 : ℚ) < 2 ^ t := by positivity
  have hsqrt : UnpackedFloat.sqrt Format.binary64 (.finite .positive m e hm) =
      roundWithAccuracy Format.binary64 .positive w.sqrt t
        (if w - w.sqrt * w.sqrt = 0 then .exact
          else .inexact (if w - w.sqrt * w.sqrt ≤ w.sqrt then .lt else .gt)) := by
    simp only [UnpackedFloat.sqrt, sqrtCore, ← ht, ← hk, Int.toNat_natCast, Nat.shiftLeft_eq, ← hw]
  have hscaled : w = n * (2 ^ i * 2 ^ i) := by
    have hexact : (w : ℚ) = n * (2 ^ i * 2 ^ i) := by
      have hexponent : e = k - i - i := by omega
      rw [← hn, hw, hexponent, zpow_sub₀ two_ne_zero, zpow_sub₀ two_ne_zero, zpow_natCast,
        zpow_natCast]
      push_cast
      field_simp
    exact_mod_cast hexact
  obtain ⟨y, hlow, hhigh, hrepresents⟩ := exists_represents_sqrt w
  have hdivided : y * 2 ^ t = y / 2 ^ i := by rw [hi, zpow_neg, zpow_natCast, ← div_eq_mul_inv]
  rw [hscaled] at hlow hhigh
  obtain ⟨hlow, hhigh⟩ := sqrt_scaled_bounds hlarge hlow hhigh
  refine ⟨y * 2 ^ t, hdivided ▸ hlow, hdivided ▸ hhigh, ?_⟩
  intro b hb hpos hattracts
  rw [hsqrt]
  refine roundWithAccuracy_eq hb hpos hattracts ?_ ?_
  · rwa [mul_div_cancel_right₀ _ hunit.ne']
  · have hlog : w.log2 = m.log2 + k := by rw [hw, log2_mul_two_pow hm]
    have hroot := log2_sqrt_ge hwpos
    refine (ht.le.trans (min_le_right _ _)).trans (targetExponent_mono ?_)
    show (((m.log2 : ℕ) + 1 : ℤ) + e + 1) / 2 ≤ ((w.sqrt.log2 : ℕ) + 1 : ℤ) + t
    omega

theorem Binary.IsDouble.exponent_nonpos {b : Binary} (hb : b.IsDouble) (h : b.value < 2 ^ 53) :
    b.exponent ≤ 0 := by
  by_contra hgt
  have hfull : 2 ^ 52 ≤ b.significand := hb.full.resolve_right (by omega)
  have hfull' : (2 ^ 52 : ℚ) ≤ b.significand := by exact_mod_cast hfull
  have hunit : (2 : ℚ) ^ (1 : ℤ) ≤ 2 ^ b.exponent := zpow_le_zpow_right₀ one_le_two (by omega)
  have hge : (2 ^ 53 : ℚ) ≤ b.value := by
    calc (2 ^ 53 : ℚ) = 2 ^ 52 * 2 ^ (1 : ℤ) := by norm_num
      _ ≤ b.significand * 2 ^ b.exponent := mul_le_mul hfull' hunit (by positivity) (by positivity)
  exact absurd h (not_lt.2 hge)

/-- The rounded root of a natural number is not below its whole root, and below the number. -/
theorem exists_sqrt {x : Float} (hx : value? x = some (n : ℚ)) (hlarge : 5 ≤ n) (hn : n < 2 ^ 53) :
    ∃ b, Binary.ofFloat? x.sqrt = some b ∧ b.negative = false ∧
      (n.sqrt : ℚ) ≤ b.value ∧ b.value ≤ (n - 1 : ℕ) := by
  obtain ⟨a, ha, hvalue, hsign⟩ := exists_of_value?_nat hx
  have hdouble := isDouble_of_ofFloat? ha
  have hpos : 0 < a.significand := by
    refine Nat.pos_of_ne_zero fun hzero => ?_
    rw [Binary.value_eq_zero hzero] at hvalue
    have : n = 0 := by exact_mod_cast hvalue.symm
    omega
  have hnegative : a.negative = false := by
    cases hcase : a.negative with
    | false => rfl
    | true =>
      have := hsign hcase
      omega
  have he : a.exponent ≤ 0 := hdouble.exponent_nonpos (by
    rw [hvalue]
    exact_mod_cast hn)
  obtain ⟨q, hlow, hhigh, hsqrt⟩ := sqrt_eq hpos he hvalue hlarge
  have hroot : 1 ≤ n.sqrt := Nat.le_sqrt.2 (by omega)
  have hroot' : (1 : ℚ) ≤ n.sqrt := by exact_mod_cast hroot
  have hn' : (n : ℚ) < 2 ^ 53 := by exact_mod_cast hn
  have hrange : q < 2 ^ (1000 : ℤ) := by
    have hpow : (2 : ℚ) ^ (53 : ℤ) ≤ 2 ^ (1000 : ℤ) := zpow_le_zpow_right₀ one_le_two (by norm_num)
    refine (hhigh.trans_lt (?_ : (n - 1 : ℚ) < 2 ^ (53 : ℤ))).trans_le hpow
    rw [zpow_ofNat]
    linarith
  have hsmall : (2 : ℚ) ^ (-1000 : ℤ) ≤ 1 := zpow_le_one_of_nonpos₀ one_le_two (by decide)
  obtain ⟨b, hsign', hb, hbpos, hattracts⟩ := exists_attracts (hsmall.trans (hroot'.trans hlow)) hrange
  have hunpack : x.sqrt.toModel.unpack = .finite .positive b.significand b.exponent hbpos := by
    have hx' := unpack_of_ofFloat? ha hpos
    rw [hnegative, if_neg Bool.false_ne_true] at hx'
    show UnpackedFloat.unpack Format.binary64 (UnpackedFloat.pack Format.binary64
      (UnpackedFloat.sqrt Format.binary64 x.toModel.unpack)) = _
    rw [hx', hsqrt b hb hbpos hattracts, unpack_pack hb]
  refine ⟨b, ?_, hsign', ?_, ?_⟩
  · rw [Binary.ofFloat?_eq, hunpack]
    obtain ⟨negative, m, e⟩ := b
    obtain rfl : negative = false := hsign'
    rfl
  -- the whole root is a double itself, and rounding passes over no double
  · obtain ⟨d, hd, hdvalue⟩ := exists_isDouble (n.sqrt_le_self.trans hn.le)
    rw [← hdvalue] at hlow ⊢
    exact hattracts.le_value hb hd hlow
  · obtain ⟨d, hd, hdvalue⟩ := exists_isDouble ((Nat.sub_le n 1).trans hn.le)
    rw [← hdvalue]
    refine hattracts.value_le hb hd ?_
    rw [hdvalue, Nat.cast_sub (by omega)]
    exact_mod_cast hhigh

end Roots

end Blockwork.Number
