import Blockwork.Number.Literal
import Blockwork.Proofs.Number.Rounding

/-! Decimal numbers are read correctly: digits and an exponent of ten give the double in whose
interval they lie. -/

namespace Blockwork.Number

open Float.Model (UnpackedFloat Format totalExponent)
open Float.Model.UnpackedFloat

/-! ### Whole numbers that doubles have exactly -/

def spread (n : ℕ) : Binary := ⟨false, n * 2 ^ 52 / 2 ^ n.log2, n.log2 - 52⟩

section Spread

variable {n : ℕ}

theorem le_spread (hn : 0 < n) : 2 ^ 52 ≤ (spread n).significand := by
  show 2 ^ 52 ≤ n * 2 ^ 52 / 2 ^ n.log2
  rw [Nat.le_div_iff_mul_le (Nat.two_pow_pos _), mul_comm]
  exact Nat.mul_le_mul_right _ (Nat.log2_self_le (Nat.ne_of_gt hn))

theorem isDouble_spread (hn : 0 < n) (hlog : n.log2 ≤ 1023) : (spread n).IsDouble := by
  refine ⟨?_, ?_, ?_, .inl (le_spread hn)⟩
  · show n * 2 ^ 52 / 2 ^ n.log2 < 2 ^ 53
    rw [Nat.div_lt_iff_lt_mul (Nat.two_pow_pos _)]
    calc n * 2 ^ 52 < 2 ^ (n.log2 + 1) * 2 ^ 52 :=
          Nat.mul_lt_mul_of_pos_right Nat.lt_log2_self (Nat.two_pow_pos _)
      _ = 2 ^ 53 * 2 ^ n.log2 := by ring
  · show (-1074 : ℤ) ≤ n.log2 - 52
    omega
  · show (n.log2 - 52 : ℤ) ≤ 971
    omega

theorem value_spread (h : 2 ^ n.log2 ∣ n * 2 ^ 52) : (spread n).value = n := by
  have hcast : ((n * 2 ^ 52 / 2 ^ n.log2 : ℕ) : ℚ) = n * 2 ^ 52 / 2 ^ n.log2 := by
    rw [Nat.cast_div h (by positivity)]
    push_cast
    rfl
  show ((n * 2 ^ 52 / 2 ^ n.log2 : ℕ) : ℚ) * 2 ^ ((n.log2 : ℤ) - 52) = n
  rw [hcast, zpow_sub₀ two_ne_zero, zpow_natCast, zpow_ofNat]
  field_simp

theorem value_spread_of_lt (hn : 0 < n) (hfits : n < 2 ^ 53) : (spread n).value = n := by
  have hlog : n.log2 ≤ 52 := by
    have := (Nat.log2_lt (Nat.ne_of_gt hn)).2 hfits
    omega
  exact value_spread (Dvd.dvd.mul_left (Nat.pow_dvd_pow 2 hlog) n)

theorem unpack_word (hn : 0 < n) (hfits : n < 2 ^ 53) : n.toUInt64.toFloat.toModel.unpack =
    .finite .positive (spread n).significand (spread n).exponent
      (Nat.lt_of_lt_of_le (Nat.two_pow_pos 52) (le_spread hn)) := by
  have hlog : n.log2 ≤ 52 := by
    have := (Nat.log2_lt (Nat.ne_of_gt hn)).2 hfits
    omega
  have hdouble := isDouble_spread hn (by omega)
  have hword : n.toUInt64.toNat = n := UInt64.toNat_ofNat_of_lt' (by show n < 2 ^ 64; omega)
  have hround : UnpackedFloat.round Format.binary64 .positive n 0 =
      roundWithAccuracy Format.binary64 .positive (n * 2 ^ (52 - n.log2)) (n.log2 - 52) .exact := by
    have htarget : Format.binary64.targetExponent (totalExponent n 0) = (n.log2 : ℤ) - 52 := by
      rw [targetExponent_eq]
      omega
    have hshift : ((0 : ℤ) - ((n.log2 : ℤ) - 52)).toNat = 52 - n.log2 := by omega
    have hexponent : (0 : ℤ) - ((52 - n.log2 : ℕ) : ℤ) = n.log2 - 52 := by omega
    simp only [UnpackedFloat.round, decreaseExponent, htarget, hshift, hexponent, Nat.shiftLeft_eq]
  have hexact : (n : ℚ) / 2 ^ ((n.log2 : ℤ) - 52) = (n * 2 ^ (52 - n.log2) : ℕ) := by
    have hexponent : (n.log2 : ℤ) - 52 = -((52 - n.log2 : ℕ) : ℤ) := by omega
    rw [hexponent, zpow_neg, zpow_natCast, div_inv_eq_mul]
    push_cast
    rfl
  have hattracts : (spread n).Attracts n := by
    have := (spread n).attracts_value
    rwa [value_spread_of_lt hn hfits] at this
  rw [unpack_toFloat, hword, ofNat_eq_round hn, hround, roundWithAccuracy_eq hdouble
    (Nat.lt_of_lt_of_le (Nat.two_pow_pos 52) (le_spread hn)) hattracts, unpack_pack hdouble]
  · rw [hexact]
    exact represents_exact _
  · rw [targetExponent_eq, log2_mul_two_pow hn]
    omega

theorem powerOfTen_eq : ∀ e : Fin 23,
    Binary.ofFloat? Float.exactlyRepresentablePowersOfTen[e] = some (spread (10 ^ e.val)) ∧
      2 ^ (10 ^ e.val).log2 ∣ 10 ^ e.val * 2 ^ 52 := by
  decide +kernel

end Spread

/-! ### Powers of ten and two -/

/-- If `10 ^ n` lies between `2 ^ k` and `2 ^ (k + 2)`, the powers of ten and two compare as their
exponents in units of `n` and `k`, with one unit to spare. -/
theorem ten_zpow_le_of_ratio {n k : ℕ} (hk : k ≠ 0) (hlow : 2 ^ k ≤ 10 ^ n)
    (hhigh : 10 ^ n ≤ 2 ^ (k + 2)) {p j : ℤ} (hj : 2 * |j| ≤ k) (h : k * p + k ≤ n * j) :
    (10 : ℚ) ^ p ≤ 2 ^ j := by
  have hlow' : (2 : ℚ) ^ k ≤ 10 ^ n := by exact_mod_cast hlow
  have hhigh' : (10 : ℚ) ^ n ≤ 2 ^ (k + 2) := by exact_mod_cast hhigh
  -- the bases differ by a factor of four at most, which comes to at most `10 ^ k` in the powers
  have hratio : ((10 : ℚ) ^ n) ^ j ≤ (2 ^ k) ^ j * 10 ^ k := by
    rcases Int.le_total 0 j with hpos | hneg
    · lift j to ℕ using hpos
      rw [Nat.abs_cast] at hj
      have hj' : 2 * j ≤ k := by exact_mod_cast hj
      rw [zpow_natCast, zpow_natCast]
      calc ((10 : ℚ) ^ n) ^ j ≤ (2 ^ (k + 2)) ^ j := pow_le_pow_left₀ (by positivity) hhigh' j
        _ = (2 ^ k) ^ j * 2 ^ (2 * j) := by rw [pow_add, mul_pow, ← pow_mul 2 2 j]
        _ ≤ (2 ^ k) ^ j * 2 ^ k := by gcongr; norm_num
        _ ≤ (2 ^ k) ^ j * 10 ^ k := by gcongr; norm_num
    · obtain ⟨i, rfl⟩ := Int.exists_eq_neg_ofNat hneg
      rw [zpow_neg, zpow_neg, zpow_natCast, zpow_natCast]
      calc (((10 : ℚ) ^ n) ^ i)⁻¹ ≤ ((2 ^ k) ^ i)⁻¹ := by gcongr
        _ ≤ ((2 ^ k) ^ i)⁻¹ * 10 ^ k :=
          le_mul_of_one_le_right (by positivity) (one_le_pow₀ (by norm_num))
  have hpow : ((10 : ℚ) ^ p) ^ k ≤ (2 ^ j) ^ k := by
    have hten : ((10 : ℚ) ^ p) ^ k * 10 ^ k ≤ (2 ^ j) ^ k * 10 ^ k := by
      calc ((10 : ℚ) ^ p) ^ k * 10 ^ k = 10 ^ (k * p + k) := by
            rw [zpow_add₀ (by norm_num), mul_comm (k : ℤ) p, zpow_mul, zpow_natCast, zpow_natCast]
        _ ≤ 10 ^ (n * j) := zpow_le_zpow_right₀ (by norm_num) h
        _ = (10 ^ n) ^ j := by rw [zpow_mul, zpow_natCast]
        _ ≤ (2 ^ k) ^ j * 10 ^ k := hratio
        _ = (2 ^ j) ^ k * 10 ^ k := by
            rw [← zpow_natCast (2 ^ j), ← zpow_mul, mul_comm j, zpow_mul, zpow_natCast]
    exact le_of_mul_le_mul_right hten (by positivity)
  exact (pow_le_pow_iff_left₀ (by positivity) (by positivity) hk).1 hpow

theorem ten_zpow_le_two_zpow {p j : ℤ} (hj : -50000 ≤ j ∧ j ≤ 50000)
    (h : 100000 * p + 100000 ≤ 30103 * j) : (10 : ℚ) ^ p ≤ 2 ^ j := by
  have habs := abs_le.2 hj
  exact @ten_zpow_le_of_ratio 30103 100000 (by decide) (by decide +kernel) (by decide +kernel) p j
    (by push_cast; omega) h

theorem two_zpow_le_ten_zpow {p j : ℤ} (hj : -50000 ≤ j ∧ j ≤ 50000)
    (h : 30103 * j + 100000 ≤ 100000 * p) : (2 : ℚ) ^ j ≤ 10 ^ p := by
  have hinv := @ten_zpow_le_two_zpow (-p) (-j) (by omega) (by omega)
  rw [zpow_neg, zpow_neg] at hinv
  exact (inv_le_inv₀ (by positivity) (by positivity)).1 hinv

/-! ### Decimal numbers -/

section Scientific

variable {b : Binary} {q : ℚ} {m e : ℕ}

theorem Binary.Attracts.pos (hpos : 0 < b.significand) (h : b.Attracts q) : 0 < q := by
  have hone : (1 : ℚ) ≤ b.significand := by exact_mod_cast hpos
  have hreach := b.reach_bounds.2
  refine lt_of_lt_of_le ?_ h.bounds.1
  exact mul_pos (by linarith) (by positivity)

theorem Binary.Attracts.ge (hb : b.IsDouble) (hpos : 0 < b.significand) (h : b.Attracts q) :
    2 ^ (-1075 : ℤ) ≤ q := by
  have hone : (1 : ℚ) ≤ b.significand := by exact_mod_cast hpos
  have hreach := b.reach_bounds.2
  have hunit : (2 : ℚ) ^ (-1074 : ℤ) ≤ 2 ^ b.exponent := zpow_le_zpow_right₀ one_le_two hb.least
  calc (2 : ℚ) ^ (-1075 : ℤ) = 1 / 2 * 2 ^ (-1074 : ℤ) := by
        rw [show (-1075 : ℤ) = -1074 - 1 by rfl, zpow_sub_one₀ two_ne_zero]
        ring
    _ ≤ (b.significand - b.reach) * 2 ^ b.exponent := by
        exact mul_le_mul (by linarith) hunit (by positivity) (by linarith)
    _ ≤ q := h.bounds.1

theorem Binary.Attracts.lt (hb : b.IsDouble) (h : b.Attracts q) : q < 2 ^ (1024 : ℤ) :=
  (h.lt_two_zpow hb).trans_le (zpow_le_zpow_right₀ one_le_two (by linarith [hb.greatest]))

theorem unpack_div (x y : Float) : (x / y).toModel.unpack =
    UnpackedFloat.unpack Format.binary64 (UnpackedFloat.pack Format.binary64
      (UnpackedFloat.div Format.binary64 x.toModel.unpack y.toModel.unpack)) := rfl

theorem le_targetExponent {e : ℤ} (hm : 2 ^ 52 ≤ m) :
    e ≤ Format.binary64.targetExponent (totalExponent m e) := by
  have := (Nat.le_log2 (by omega)).2 hm
  rw [targetExponent_eq]
  omega

theorem unpack_ofScientific_fast (hb : b.IsDouble) (hpos : 0 < b.significand) (hm : 0 < m)
    (hfits : m < 2 ^ 53) {power : Float}
    (hpower : Binary.ofFloat? power = some (spread (10 ^ e))) (hvalue : (spread (10 ^ e)).value = 10 ^ e)
    {s : Bool} (h : b.Attracts (m * 10 ^ (if s then -(e : ℤ) else e))) :
    (if s then m.toUInt64.toFloat / power else m.toUInt64.toFloat * power).toModel.unpack =
      .finite .positive b.significand b.exponent hpos := by
  have hspread : 2 ^ 52 ≤ (spread m).significand := le_spread hm
  have hten : 2 ^ 52 ≤ (spread (10 ^ e)).significand := le_spread (by positivity)
  have hpower' := unpack_of_ofFloat? hpower (Nat.lt_of_lt_of_le (Nat.two_pow_pos 52) hten)
  have hm' := value_spread_of_lt hm hfits
  unfold Binary.value at hm' hvalue
  cases s with
  | false =>
    rw [if_neg (by decide), unpack_mul, unpack_word hm hfits, hpower', mul_eq hb hpos, unpack_pack hb]
    · rfl
    · rw [hm', hvalue]
      simpa using h
    · exact le_targetExponent (by nlinarith)
  | true =>
    rw [if_pos rfl, unpack_div, unpack_word hm hfits, hpower', div_eq hb hpos, unpack_pack hb]
    · rfl
    · rw [hm', hvalue]
      simpa [div_eq_mul_inv] using h

theorem Binary.Attracts.exponent_bounds (hb : b.IsDouble) (hpos : 0 < b.significand) {j : ℤ}
    (hm : 0 < m) (h : b.Attracts (m * 10 ^ j)) : j ≤ 2048 ∧ -(2048 + (m.log2 : ℤ)) ≤ j := by
  have hm' : (1 : ℚ) ≤ m := by exact_mod_cast hm
  constructor
  · by_contra hlarge
    have hten : (2 : ℚ) ^ (1024 : ℤ) ≤ 10 ^ j := by
      calc (2 : ℚ) ^ (1024 : ℤ) ≤ 2 ^ j := zpow_le_zpow_right₀ one_le_two (by omega)
        _ ≤ 10 ^ j := zpow_le_zpow_left₀ (by omega) (by norm_num) (by norm_num)
    have hq : (10 : ℚ) ^ j ≤ m * 10 ^ j := le_mul_of_one_le_left (by positivity) hm'
    exact absurd (h.lt hb) (not_lt.2 (hten.trans hq))
  · by_contra hsmall
    have hten : (10 : ℚ) ^ j ≤ 2 ^ j := by
      obtain ⟨i, rfl⟩ := Int.exists_eq_neg_ofNat (show j ≤ 0 by omega)
      rw [zpow_neg, zpow_neg, zpow_natCast, zpow_natCast]
      exact inv_anti₀ (by positivity) (pow_le_pow_left₀ (by norm_num) (by norm_num) i)
    have hbits : (m : ℚ) < (2 ^ (m.log2 + 1) : ℕ) := by exact_mod_cast Nat.lt_log2_self
    have hq : m * (10 : ℚ) ^ j < 2 ^ (-1075 : ℤ) := by
      calc m * (10 : ℚ) ^ j < (2 ^ (m.log2 + 1) : ℕ) * 2 ^ j :=
            mul_lt_mul hbits hten (by positivity) (by positivity)
        _ = 2 ^ ((m.log2 + 1 : ℕ) + j) := by
            rw [zpow_add₀ two_ne_zero, zpow_natCast]
            push_cast
            rfl
        _ ≤ 2 ^ (-1075 : ℤ) := zpow_le_zpow_right₀ one_le_two (by omega)
    exact absurd (h.ge hb hpos) (not_le.2 hq)

theorem ofScientific_eq (hb : b.IsDouble) (hpos : 0 < b.significand) {j : ℤ} (hm : 0 < m)
    (h : b.Attracts (m * 10 ^ j)) : UnpackedFloat.ofScientific Format.binary64 m j =
      .finite .positive b.significand b.exponent hpos := by
  obtain ⟨hlarge, hsmall⟩ := h.exponent_bounds hb hpos hm
  have hlarge' : ¬ j > 2 ^ Format.binary64.exponentBits := by
    show ¬ j > 2048
    omega
  have hsmall' : ¬ j < -((2 ^ Format.binary64.exponentBits : ℤ) + m.log2) := by
    show ¬ j < -(2048 + (m.log2 : ℤ))
    omega
  rw [UnpackedFloat.ofScientific, dif_neg (Nat.ne_of_gt hm), if_neg hlarge', if_neg hsmall']
  split
  · rename_i hj
    obtain ⟨i, rfl⟩ := Int.eq_ofNat_of_zero_le hj
    have hshift : m <<< Format.binary64.mantissaBits = m * 2 ^ 53 := Nat.shiftLeft_eq _ _
    rw [mul_eq hb hpos]
    · rfl
    · have hunit : (2 : ℚ) ^ (-(Format.binary64.mantissaBits : ℤ)) = (2 ^ 53)⁻¹ := by
        rw [zpow_neg, zpow_natCast]
        rfl
      have hexact : ((m * 2 ^ 53 : ℕ) : ℚ) * (2 ^ 53)⁻¹ * ((10 ^ i : ℕ) * 2 ^ (0 : ℤ)) =
          m * 10 ^ (i : ℤ) := by
        rw [zpow_natCast, Nat.cast_mul, Nat.cast_pow, Nat.cast_pow, zpow_zero, mul_one, mul_assoc (m : ℚ)]
        simp
      rw [hshift, hunit, Int.toNat_natCast, hexact]
      exact h
    · refine le_targetExponent ?_
      rw [hshift]
      calc 2 ^ 52 ≤ 1 * 2 ^ 53 * 1 := by norm_num
        _ ≤ m * 2 ^ 53 * 10 ^ i := by
            gcongr
            · exact hm
            · exact Nat.one_le_pow' _ _
  · rename_i hj
    obtain ⟨i, rfl⟩ := Int.exists_eq_neg_ofNat (show j ≤ 0 by omega)
    rw [div_eq hb hpos]
    · rfl
    · simpa [div_eq_mul_inv] using h

theorem unpack_ofScientific (hb : b.IsDouble) (hpos : 0 < b.significand) {s : Bool}
    (h : b.Attracts (m * 10 ^ (if s then -(e : ℤ) else e))) :
    (Float.ofScientific m s e).toModel.unpack =
      .finite .positive b.significand b.exponent hpos := by
  have hq := h.pos hpos
  have hm : 0 < m := by
    rcases Nat.eq_zero_or_pos m with rfl | hm
    · simp at hq
    · exact hm
  unfold Float.ofScientific
  by_cases hfast : m < 2 ^ 53 ∧ e ≤ 22
  · rw [dif_pos hfast]
    obtain ⟨hpower, hdvd⟩ := powerOfTen_eq ⟨e, by omega⟩
    have hvalue := value_spread hdvd
    push_cast at hvalue
    exact unpack_ofScientific_fast hb hpos hm hfast.1 hpower hvalue h
  rw [dif_neg hfast]
  have hexponent : (if s then Int.negOfNat e else Int.ofNat e) = if s then -(e : ℤ) else e := by
    cases s
    · rfl
    · exact Int.negOfNat_eq
  simp only [hexponent]
  show UnpackedFloat.unpack Format.binary64 (UnpackedFloat.pack Format.binary64
    (UnpackedFloat.ofScientific Format.binary64 m _)) = _
  rw [ofScientific_eq hb hpos hm h, unpack_pack hb]

section Estimate

variable {d : ℕ} {x : ℤ}

theorem two_zpow_log2_mul_le (hd : d ≠ 0) (x : ℤ) :
    (2 : ℚ) ^ (d.log2 : ℤ) * 10 ^ x ≤ d * 10 ^ x := by
  have hbits : ((2 ^ d.log2 : ℕ) : ℚ) ≤ d := by exact_mod_cast Nat.log2_self_le hd
  rw [zpow_natCast]
  exact mul_le_mul_of_nonneg_right (by exact_mod_cast hbits) (by positivity)

theorem mul_le_two_zpow_log2 (d : ℕ) (x : ℤ) :
    (d : ℚ) * 10 ^ x ≤ 2 ^ (d.log2 + 1 : ℤ) * 10 ^ x := by
  have hbits : (d : ℚ) ≤ (2 ^ (d.log2 + 1) : ℕ) := by exact_mod_cast Nat.le_of_lt Nat.lt_log2_self
  refine mul_le_mul_of_nonneg_right (hbits.trans_eq ?_) (by positivity)
  rw [← Nat.cast_add_one, zpow_natCast]
  push_cast
  rfl

/-- The digits of a number in the range of doubles are few enough for the estimate of the powers. -/
theorem log2_lt_of_lt (hd : d ≠ 0) (hx : -10000 ≤ x) (h : (d : ℚ) * 10 ^ x < 2 ^ (1024 : ℤ)) :
    d.log2 < 41024 := by
  have hten : (2 : ℚ) ^ (-40000 : ℤ) ≤ 10 ^ x := two_zpow_le_ten_zpow (by norm_num) (by omega)
  have hpow : (2 : ℚ) ^ ((d.log2 : ℤ) + -40000) < 2 ^ (1024 : ℤ) := by
    refine lt_of_le_of_lt ?_ h
    rw [zpow_add₀ two_ne_zero]
    exact (mul_le_mul_of_nonneg_left hten (by positivity)).trans (two_zpow_log2_mul_le hd x)
  have := (zpow_lt_zpow_iff_right₀ one_lt_two).1 hpow
  omega

theorem estimate_ge (hlog : d.log2 < 41024) (h : 2 ^ (-1075 : ℤ) ≤ (d : ℚ) * 10 ^ x) :
    -330 ≤ (d.log2 : ℤ) * 30103 / 100000 + x := by
  generalize hf : (d.log2 : ℤ) * 30103 / 100000 = f
  by_contra hsmall
  have hten : (2 : ℚ) ^ (d.log2 + 1 : ℤ) ≤ 10 ^ (f + 3) :=
    two_zpow_le_ten_zpow (by omega) (by omega)
  have hend : (10 : ℚ) ^ (-328 : ℤ) ≤ 2 ^ (-1076 : ℤ) :=
    ten_zpow_le_two_zpow (by norm_num) (by norm_num)
  have hq : (d : ℚ) * 10 ^ x ≤ 2 ^ (-1076 : ℤ) := by
    calc (d : ℚ) * 10 ^ x ≤ 2 ^ (d.log2 + 1 : ℤ) * 10 ^ x := mul_le_two_zpow_log2 d x
      _ ≤ 10 ^ (f + 3) * 10 ^ x := mul_le_mul_of_nonneg_right hten (by positivity)
      _ = 10 ^ (f + 3 + x) := (zpow_add₀ (by norm_num) _ _).symm
      _ ≤ 10 ^ (-328 : ℤ) := zpow_le_zpow_right₀ (by norm_num) (by omega)
      _ ≤ 2 ^ (-1076 : ℤ) := hend
  have := (zpow_le_zpow_iff_right₀ (one_lt_two (α := ℚ))).1 (h.trans hq)
  omega

theorem estimate_le (hd : d ≠ 0) (hlog : d.log2 < 41024)
    (h : (d : ℚ) * 10 ^ x < 2 ^ (1024 : ℤ)) :
    (d.log2 : ℤ) * 30103 / 100000 + x ≤ 310 := by
  generalize hf : (d.log2 : ℤ) * 30103 / 100000 = f
  by_contra hlarge
  have hten : (10 : ℚ) ^ (f - 1) ≤ 2 ^ (d.log2 : ℤ) :=
    ten_zpow_le_two_zpow (by omega) (by omega)
  have hend : (2 : ℚ) ^ (1024 : ℤ) ≤ 10 ^ (310 : ℤ) :=
    two_zpow_le_ten_zpow (by norm_num) (by norm_num)
  have hq : (2 : ℚ) ^ (1024 : ℤ) ≤ d * 10 ^ x := by
    calc (2 : ℚ) ^ (1024 : ℤ) ≤ 10 ^ (310 : ℤ) := hend
      _ ≤ 10 ^ (f - 1 + x) := zpow_le_zpow_right₀ (by norm_num) (by omega)
      _ = 10 ^ (f - 1) * 10 ^ x := zpow_add₀ (by norm_num) _ _
      _ ≤ 2 ^ (d.log2 : ℤ) * 10 ^ x := mul_le_mul_of_nonneg_right hten (by positivity)
      _ ≤ d * 10 ^ x := two_zpow_log2_mul_le hd x
  exact absurd h (not_lt.2 hq)

end Estimate

theorem unpack_nearest (hb : b.IsDouble) (hpos : 0 < b.significand) {d : ℕ} {x : ℤ}
    (hx : -10000 ≤ x) (h : b.Attracts (d * 10 ^ x)) :
    (nearest d x).toModel.unpack = .finite .positive b.significand b.exponent hpos := by
  have hd : d ≠ 0 := by
    rintro rfl
    simpa using h.pos hpos
  have hlog := log2_lt_of_lt hd hx (h.lt hb)
  -- neither shortcut is taken: they are for numbers that round to zero or to infinity
  have hsmall := not_lt.2 (estimate_ge hlog (h.ge hb hpos))
  have hlarge := not_lt.2 (estimate_le hd hlog (h.lt hb))
  have hscientific : nearest d x = Float.ofScientific d (x < 0) x.natAbs := by
    unfold nearest
    simp only
    rw [if_neg (by simpa [hd] using hsmall), if_neg hlarge]
  have hexponent : (if decide (x < 0) then -((x.natAbs : ℕ) : ℤ) else x.natAbs) = x := by
    split <;> rename_i hsign <;> rw [decide_eq_true_eq] at hsign <;> omega
  rw [hscientific]
  refine unpack_ofScientific hb hpos ?_
  rw [hexponent]
  exact h

end Scientific

end Blockwork.Number
