import Blockwork.Proofs.Number.Shortest
import Blockwork.Proofs.Number.Values

/-! Whole parts and remainders, which are computed on the exact fractions and put back into bits. -/

namespace Blockwork.Number

open Float.Model (UnpackedFloat Format)
open Float.Model.UnpackedFloat

/-! ### Doubles from their bits -/

theorem toBits_ofBits {u : UInt64} (h : u.toNat / 2 ^ 52 % 2 ^ 11 ≠ 2047) :
    (Float.ofBits u).toBits = u := by
  have hpack : (Float.ofBits u).toBits.toBitVec = UnpackedFloat.pack Format.binary64
    (UnpackedFloat.unpack Format.binary64 u.toBitVec) := rfl
  have hfield := toNat_unpackExponent u.toBitVec
  have hnan : UnpackedFloat.unpack Format.binary64 u.toBitVec ≠ .notANumber := by
    rw [unpack_eq, ofFields, if_neg]
    · split
      · split <;> simp
      · simp
    · rw [← BitVec.toNat_inj, hfield]
      exact h
  rw [← UInt64.toBitVec_inj, hpack]
  rw [unpack_eq] at hnan ⊢
  rw [pack_ofFields _ _ _ hnan, packComponents_unpack]

namespace Binary

theorem ofFloat?_ofBits {negative : Bool} {field fraction : ℕ} (hfield : field < 2047)
    (hfraction : fraction < 2 ^ 52) :
    ofFloat? (Float.ofBits (UInt64.ofNat ((if negative then 2 ^ 63 else 0) + field * 2 ^ 52 + fraction))) =
      if field = 0 then some ⟨negative, fraction, -1074⟩
      else some ⟨negative, 2 ^ 52 + fraction, field - 1075⟩ := by
  obtain ⟨sign, hsign⟩ : ∃ sign, sign = if negative then 1 else 0 := ⟨_, rfl⟩
  obtain ⟨word, hword⟩ : ∃ word, word = sign * 2 ^ 63 + field * 2 ^ 52 + fraction := ⟨_, rfl⟩
  have hsmall : sign ≤ 1 := by
    rw [hsign]
    split <;> omega
  have hscaled : (if negative then 2 ^ 63 else 0) = sign * 2 ^ 63 := by
    rw [hsign]
    cases negative <;> rfl
  have hnat : (UInt64.ofNat word).toNat = word := UInt64.toNat_ofNat_of_lt' (by
    show word < 2 ^ 64
    omega)
  have hbits : (Float.ofBits (UInt64.ofNat word)).toBits.toNat = word := by
    rw [toBits_ofBits (by rw [hnat]; omega), hnat]
  have hfieldBits : word / Nat.pow 2 52 % Nat.pow 2 11 = field := by
    show word / 2 ^ 52 % 2 ^ 11 = field
    omega
  have hfractionBits : word % Nat.pow 2 52 = fraction := by
    show word % 2 ^ 52 = fraction
    omega
  have hsignBit : decide (word / Nat.pow 2 63 = 1) = negative := by
    have hfirst : word / Nat.pow 2 63 = sign := by
      show word / 2 ^ 63 = sign
      omega
    rw [hfirst, hsign]
    cases negative <;> rfl
  rw [hscaled, ← hword]
  unfold ofFloat?
  simp only [hbits, hfieldBits, hfractionBits, hsignBit]
  rw [if_neg hfield.ne]
  rfl

section

variable {b : Binary} (hshort : b.significand < 2 ^ 53)

def shift (b : Binary) : ℕ := min (52 - b.significand.log2) (b.exponent + 1074).toNat

include hshort

theorem log2_significand_le : b.significand.log2 ≤ 52 := by
  rcases Nat.eq_zero_or_pos b.significand with hzero | hpos
  · rw [hzero]
    decide
  · have := (Nat.log2_lt hpos.ne').2 hshort
    omega

theorem shifted_lt : b.significand * 2 ^ b.shift < 2 ^ 53 := by
  have hlog := log2_significand_le hshort
  have hshift : b.shift ≤ 52 - b.significand.log2 := Nat.min_le_left ..
  calc b.significand * 2 ^ b.shift < 2 ^ (b.significand.log2 + 1) * 2 ^ b.shift :=
        Nat.mul_lt_mul_of_pos_right Nat.lt_log2_self (Nat.two_pow_pos _)
    _ = 2 ^ (b.significand.log2 + 1 + b.shift) := (Nat.pow_add _ _ _).symm
    _ ≤ 2 ^ 53 := Nat.pow_le_pow_right Nat.two_pos (by omega)

theorem shift_of_shifted_lt (hpos : 0 < b.significand) (hlt : b.significand * 2 ^ b.shift < 2 ^ 52) :
    b.shift = (b.exponent + 1074).toNat := by
  by_contra hne
  have hshift : b.shift = 52 - b.significand.log2 := by
    rw [shift] at hne ⊢
    omega
  have hge : 2 ^ 52 ≤ b.significand * 2 ^ b.shift := by
    calc 2 ^ 52 = 2 ^ b.significand.log2 * 2 ^ (52 - b.significand.log2) := by
          rw [← Nat.pow_add, Nat.add_sub_cancel' (log2_significand_le hshort)]
      _ ≤ b.significand * 2 ^ (52 - b.significand.log2) :=
          Nat.mul_le_mul_right _ (Nat.log2_self_le hpos.ne')
      _ = b.significand * 2 ^ b.shift := by rw [hshift]
  omega

/-- The fraction that is read from the bits of a double has zeros at its end, or it is a zero itself. -/
theorem ofFloat?_toFloat (hleast : -1074 ≤ b.exponent) (hgreatest : b.exponent ≤ 971) :
    ∃ e, ofFloat? b.toFloat = some ⟨b.negative, b.significand * 2 ^ b.shift, e⟩ ∧
      (b.significand = 0 ∨ e = b.exponent - b.shift) := by
  have hlt := shifted_lt hshort
  have hshift : b.shift ≤ (b.exponent + 1074).toNat := Nat.min_le_right ..
  obtain ⟨field, hfield⟩ : ∃ field, field =
    if b.significand * 2 ^ b.shift < 2 ^ 52 then 0 else (b.exponent - b.shift + 1075).toNat := ⟨_, rfl⟩
  have hsmall : field < 2047 := by
    rw [hfield]
    split <;> omega
  have hbits : b.toFloat = Float.ofBits (UInt64.ofNat ((if b.negative then 2 ^ 63 else 0) +
      field * 2 ^ 52 + b.significand * 2 ^ b.shift % 2 ^ 52)) := by
    rw [hfield]
    rfl
  rw [hbits, ofFloat?_ofBits hsmall (Nat.mod_lt _ (Nat.two_pow_pos _))]
  by_cases hsub : b.significand * 2 ^ b.shift < 2 ^ 52
  · rw [if_pos hsub] at hfield
    rw [if_pos hfield, Nat.mod_eq_of_lt hsub]
    refine ⟨-1074, rfl, ?_⟩
    rcases Nat.eq_zero_or_pos b.significand with hzero | hpos
    · exact .inl hzero
    · have := shift_of_shifted_lt hshort hpos hsub
      exact .inr (by omega)
  · rw [if_neg hsub] at hfield
    rw [if_neg (by omega), show 2 ^ 52 + b.significand * 2 ^ b.shift % 2 ^ 52 =
      b.significand * 2 ^ b.shift by omega]
    exact ⟨field - 1075, rfl, .inr (by omega)⟩

theorem value?_toFloat (hleast : -1074 ≤ b.exponent) (hgreatest : b.exponent ≤ 971) :
    value? b.toFloat = some b.signed := by
  obtain ⟨e, hdecoded, he⟩ := ofFloat?_toFloat hshort hleast hgreatest
  have hvalue : value ⟨b.negative, b.significand * 2 ^ b.shift, e⟩ = b.value := by
    rw [value, value]
    push_cast
    rcases he with hzero | rfl
    · simp [hzero]
    · rw [zpow_sub₀ two_ne_zero, zpow_natCast]
      field_simp
  rw [value?, hdecoded, Option.map_some, signed, hvalue]
  rfl

end

end Binary

/-! ### Natural numbers as doubles -/

section Naturals

variable {x y : Float} {m n : ℕ}

theorem exists_of_value?_nat (h : value? x = some (n : ℚ)) :
    ∃ b, Binary.ofFloat? x = some b ∧ b.value = n ∧ (b.negative = true → n = 0) := by
  rw [value?, Option.map_eq_some_iff] at h
  obtain ⟨b, hb, hsigned⟩ := h
  have hnonneg := b.value_nonneg
  have hn : (0 : ℚ) ≤ n := Nat.cast_nonneg n
  refine ⟨b, hb, ?_⟩
  rw [Binary.signed] at hsigned
  split at hsigned
  · have hzero : (n : ℚ) = 0 := by linarith
    exact ⟨by linarith, fun _ => by exact_mod_cast hzero⟩
  · rename_i hsign
    exact ⟨hsigned, fun h => absurd h hsign⟩

theorem value?_ofNat (h : n ≤ 2 ^ 53) : value? (Float.ofNat n) = some (n : ℚ) := by
  rcases Nat.eq_zero_or_pos n with rfl | hn
  · have hzero : (Float.ofNat 0).toModel.unpack = .zero .positive := rfl
    rw [value?_of_zero hzero, Nat.cast_zero]
  · obtain ⟨b, hb, hvalue⟩ := exists_isDouble h
    have hpos : 0 < b.significand := by
      refine Nat.pos_of_ne_zero fun hzero => ?_
      rw [Binary.value_eq_zero hzero] at hvalue
      exact absurd hvalue.symm (by positivity)
    have hattracts := b.attracts_value
    rw [hvalue] at hattracts
    have hunpack : (Float.ofNat n).toModel.unpack = .finite .positive b.significand b.exponent hpos :=
      unpack_ofScientific hb hpos (by simpa using hattracts)
    rw [value?_of_finite hunpack, ← hvalue]
    rfl

theorem Binary.isWhole_of_value {b : Binary} (h : b.value = n) : b.isWhole = true ∧ b.whole = n := by
  have hwhole : b.isWhole = true := by
    obtain ⟨negative, m, e⟩ := b
    rw [value] at h
    unfold isWhole scale
    rcases le_or_gt 0 e with he | he
    · simp [he]
    · obtain ⟨k, rfl⟩ := Int.exists_eq_neg_ofNat he.le
      have hm : m = n * 2 ^ k := by
        rw [zpow_neg, zpow_natCast, ← div_eq_mul_inv, div_eq_iff (by positivity)] at h
        exact_mod_cast h
      rw [Bool.or_eq_true, decide_eq_true_eq, decide_eq_true_eq]
      refine .inr ?_
      show m % 2 ^ (- -(k : ℤ)).toNat = 0
      rw [Int.neg_neg, Int.toNat_natCast, hm, Nat.mul_mod_left]
  have hcast := Binary.value_of_isWhole hwhole
  rw [h] at hcast
  exact ⟨hwhole, by exact_mod_cast hcast⟩

theorem Binary.whole_eq_floor (b : Binary) : b.whole = ⌊b.value⌋₊ := by
  have hsplit := Nat.floor_div_eq_div (K := ℚ) (b.significand * 2 ^ b.exponent.toNat)
    (2 ^ (-b.exponent).toNat)
  have hvalue : b.value = ((b.significand * 2 ^ b.exponent.toNat : ℕ) : ℚ) /
      (2 ^ (-b.exponent).toNat : ℕ) := by
    rw [Binary.value, zpow_eq_div two_ne_zero]
    push_cast
    rw [mul_div_assoc]
  rw [hvalue, hsplit]
  rfl

theorem floor_eq (y : Float) : floor y = match Binary.ofFloat? y with
    | none => y
    | some b => if b.isWhole then y
      else if b.negative then -(Float.ofNat (if b.negative then b.whole + 1 else b.whole))
        else Float.ofNat (if b.negative then b.whole + 1 else b.whole) := rfl

theorem value?_floor {b : Binary} (hb : Binary.ofFloat? y = some b) (hsign : b.negative = false) :
    value? (floor y) = some (⌊b.value⌋₊ : ℚ) := by
  have hfloor : floor y = if b.isWhole then y else Float.ofNat b.whole := by
    rw [floor_eq, hb]
    simp only [hsign, Bool.false_eq_true, if_false]
  rw [hfloor, ← b.whole_eq_floor]
  split
  · rename_i hwhole
    rw [value?, hb, Binary.value_of_isWhole hwhole, Option.map_some, Binary.signed, hsign]
    rfl
  · rename_i hwhole
    have hexponent : b.exponent < 0 := by
      by_contra hge
      exact hwhole (by simp [Binary.isWhole, not_lt.1 hge])
    have hle : b.whole ≤ b.significand := by
      rw [Binary.whole, show b.exponent.toNat = 0 by omega]
      exact (Nat.div_le_self _ _).trans_eq (Nat.mul_one _)
    exact value?_ofNat (hle.trans (isDouble_of_ofFloat? hb).short.le)

/-- The remainder of two numbers over their least exponent. -/
theorem mod_eq_of_scaled {j k : ℕ} {e : ℤ} (hj : (j * 2 ^ e : ℚ) = m) (hk : (k * 2 ^ e : ℚ) = n) :
    ((j % k : ℕ) : ℚ) * 2 ^ e = (m % n : ℕ) := by
  rcases Int.le_total 0 e with he | he
  · obtain ⟨i, rfl⟩ := Int.eq_ofNat_of_zero_le he
    rw [zpow_natCast] at hj hk ⊢
    have hj' : j * 2 ^ i = m := by exact_mod_cast hj
    have hk' : k * 2 ^ i = n := by exact_mod_cast hk
    rw [← hj', ← hk', Nat.mul_mod_mul_right]
    push_cast
    rfl
  · obtain ⟨i, rfl⟩ := Int.exists_eq_neg_ofNat he
    rw [zpow_neg, zpow_natCast, ← div_eq_mul_inv, div_eq_iff (by positivity)] at hj hk ⊢
    have hj' : j = m * 2 ^ i := by exact_mod_cast hj
    have hk' : k = n * 2 ^ i := by exact_mod_cast hk
    rw [hj', hk', Nat.mul_mod_mul_right]
    push_cast
    rfl

def Binary.units (b : Binary) (least : ℤ) : ℕ := b.significand * 2 ^ (b.exponent - least).toNat

theorem Binary.units_self (b : Binary) : b.units b.exponent = b.significand := by
  rw [units, Int.sub_self]
  exact Nat.mul_one _

theorem Binary.units_mul (b : Binary) {least : ℤ} (h : least ≤ b.exponent) :
    (b.units least * 2 ^ least : ℚ) = b.value := by
  rw [units]
  push_cast
  rw [value, mul_assoc, ← zpow_natCast, ← zpow_add₀ two_ne_zero,
    show ((b.exponent - least).toNat : ℤ) + least = b.exponent by omega]

theorem remainder_eq {a b : Binary} (ha : Binary.ofFloat? x = some a) (hb : Binary.ofFloat? y = some b)
    (hne : b.significand ≠ 0) : remainder x y = Binary.toFloat ⟨a.negative,
      a.units (min a.exponent b.exponent) % b.units (min a.exponent b.exponent),
      min a.exponent b.exponent⟩ := by
  unfold remainder
  rw [ha, hb]
  simp only [if_neg hne]
  rfl

theorem Binary.units_mod_lt {a b : Binary} (ha : a.IsDouble) (hb : b.IsDouble) (hne : b.significand ≠ 0) :
    a.units (min a.exponent b.exponent) % b.units (min a.exponent b.exponent) < 2 ^ 53 := by
  rcases le_total a.exponent b.exponent with hle | hle
  · rw [min_eq_left hle, units_self]
    exact (Nat.mod_le _ _).trans_lt ha.short
  · rw [min_eq_right hle, units_self]
    exact (Nat.mod_lt _ (Nat.pos_of_ne_zero hne)).trans hb.short

theorem value?_remainder (hx : value? x = some (m : ℚ)) (hy : value? y = some (n : ℚ)) (hn : n ≠ 0) :
    value? (remainder x y) = some ((m % n : ℕ) : ℚ) := by
  obtain ⟨a, ha, hm, hsign⟩ := exists_of_value?_nat hx
  obtain ⟨b, hb, hn', -⟩ := exists_of_value?_nat hy
  have hdouble := isDouble_of_ofFloat? ha
  have hdouble' := isDouble_of_ofFloat? hb
  have hne : b.significand ≠ 0 := fun hzero => hn (by
    rw [Binary.value_eq_zero hzero] at hn'
    exact_mod_cast hn'.symm)
  have hunits := (a.units_mul (min_le_left a.exponent b.exponent)).trans hm
  have hunits' := (b.units_mul (min_le_right a.exponent b.exponent)).trans hn'
  have hvalue := mod_eq_of_scaled hunits hunits'
  rw [remainder_eq ha hb hne, Binary.value?_toFloat (Binary.units_mod_lt hdouble hdouble' hne)]
  · refine congrArg some ?_
    unfold Binary.signed Binary.value
    rw [hvalue]
    split
    · rename_i hnegative
      rw [hsign hnegative, Nat.zero_mod, Nat.cast_zero, neg_zero]
    · rfl
  · exact le_min hdouble.least hdouble'.least
  · exact (min_le_left _ _).trans hdouble.greatest

end Naturals

end Blockwork.Number
