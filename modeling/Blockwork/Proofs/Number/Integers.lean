import Blockwork.Proofs.Number.Order
import Blockwork.Proofs.Number.Scientific
import Blockwork.Toml.Basic
import Blockwork.Value

/-! Numbers as integers. An integer below the limit is a double of its own, so that the number that
was turned into it comes back. -/

namespace Blockwork.Number

open Float.Model (UnpackedFloat Format)
open Float.Model.UnpackedFloat

variable {x : Float} {b : Binary}

theorem Binary.value_of_isWhole (h : b.isWhole = true) : (b.whole : ℚ) = b.value := by
  obtain ⟨negative, m, e⟩ := b
  have hpow : ∀ n : ℕ, Nat.pow 2 n = 2 ^ n := fun _ => rfl
  simp only [isWhole, Bool.or_eq_true, decide_eq_true_eq] at h
  rw [whole, value, scale, hpow, hpow]
  rcases le_or_gt 0 e with he | he
  · obtain ⟨k, rfl⟩ := Int.eq_ofNat_of_zero_le he
    simp
  · obtain ⟨k, rfl⟩ := Int.exists_eq_neg_ofNat he.le
    have hdvd : 2 ^ k ∣ m := by
      have := h.resolve_left (by omega)
      rw [scale, hpow] at this
      simpa using Nat.dvd_of_mod_eq_zero this
    rw [Int.neg_neg, Int.toNat_natCast, show (-(k : ℤ)).toNat = 0 by omega, pow_zero, mul_one,
      Nat.cast_div hdvd (by positivity)]
    push_cast
    rw [zpow_neg, zpow_natCast, div_eq_mul_inv]

theorem unpack_abs (hb : Binary.ofFloat? x = some b) (hpos : 0 < b.significand) :
    x.abs.toModel.unpack = .finite .positive b.significand b.exponent hpos := by
  show UnpackedFloat.unpack Format.binary64
    (UnpackedFloat.pack Format.binary64 x.toModel.unpack.abs) = _
  rw [unpack_of_ofFloat? hb hpos]
  exact unpack_pack (isDouble_of_ofFloat? hb) hpos _

theorem unpack_integerLimit : Value.integerLimit.toModel.unpack =
    .finite .positive (8 * 10 ^ 15) (-3) (by decide) := rfl

theorem whole_lt_of_abs_lt (hb : Binary.ofFloat? x = some b) (h : x.abs < Value.integerLimit) :
    b.whole < 2 ^ 50 := by
  have hshort := (isDouble_of_ofFloat? hb).short
  rcases Nat.eq_zero_or_pos b.significand with hzero | hpos
  · simp [Binary.whole, hzero]
  rw [lt_iff, unpack_abs hb hpos, unpack_integerLimit] at h
  have hexponent : b.exponent ≤ -3 := by
    by_contra hlt
    have hgt : compare b.exponent (-3) = .gt := Int.compare_eq_gt.2 (by omega)
    simp [UnpackedFloat.compare, hgt] at h
  have hscale : 2 ^ 3 ≤ b.scale := Nat.pow_le_pow_right (by decide) (by omega)
  rw [Binary.whole, show b.exponent.toNat = 0 by omega]
  show b.significand * 1 / b.scale < _
  rw [Nat.div_lt_iff_lt_mul (by omega)]
  omega

theorem ofNat_whole (hb : Binary.ofFloat? x = some b) (hpos : 0 < b.significand)
    (hwhole : b.isWhole = true) : (Float.ofNat b.whole).toModel.unpack =
      .finite .positive b.significand b.exponent hpos := by
  have hattracts := Binary.attracts_value b
  rw [← Binary.value_of_isWhole hwhole] at hattracts
  exact unpack_ofScientific (isDouble_of_ofFloat? hb) hpos (by simpa using hattracts)

theorem beq_self (h : x.isNaN = false) : (x == x) = true := by
  have hnan : x.toModel.unpack ≠ .notANumber := fun hx => by
    rw [(isNaN_iff x).2 hx] at h
    cases h
  rw [beq_iff]
  generalize x.toModel.unpack = u at hnan ⊢
  rcases u with (_ | _) | _ | (_ | _) | ⟨_ | _, m, e, hm⟩ <;>
    first | exact absurd rfl hnan | rfl | simp [UnpackedFloat.compare]

section Integers

variable {n : ℤ}

theorem exists_of_integer? (h : Value.integer? x = some n) : ∃ b, Binary.ofFloat? x = some b ∧
    b.isWhole = true ∧ x.abs < Value.integerLimit ∧ n = if b.negative then -(b.whole : ℤ) else b.whole := by
  unfold Value.integer? at h
  cases hb : Binary.ofFloat? x with
  | none => simp [hb] at h
  | some b =>
    simp only [hb, Option.ite_none_right_eq_some, Bool.and_eq_true, decide_eq_true_eq,
      Option.some.injEq] at h
    exact ⟨b, rfl, h.1.1, h.1.2, h.2.symm⟩

theorem isInteger_of_integer? (h : Value.integer? x = some n) : Toml.isInteger n = true := by
  obtain ⟨b, hb, -, hlt, rfl⟩ := exists_of_integer? h
  have hwhole := whole_lt_of_abs_lt hb hlt
  have hpow : Nat.pow 2 63 = 2 ^ 63 := rfl
  split
  · cases hk : b.whole with
    | zero => rfl
    | succ k =>
      show decide (k < Nat.pow 2 63) = true
      rw [decide_eq_true_eq, hpow]
      omega
  · show decide (b.whole < Nat.pow 2 63) = true
    rw [decide_eq_true_eq, hpow]
    omega

theorem beq_ofInt_of_integer? (h : Value.integer? x = some n) : (x == Float.ofInt n) = true := by
  obtain ⟨b, hb, hwhole, -, rfl⟩ := exists_of_integer? h
  -- only the zeros are equal without being the same double
  rcases Nat.eq_zero_or_pos b.significand with hzero | hpos
  · have hx : ∃ s, x.toModel.unpack = .zero s := by
      rw [Binary.ofFloat?_eq] at hb
      rcases hx : x.toModel.unpack with _ | _ | s | ⟨s, m, e, hm⟩ <;> rw [hx] at hb <;> cases hb
      · exact ⟨s, rfl⟩
      · exact absurd hzero hm.ne'
    obtain ⟨s, hx⟩ := hx
    have hn : b.whole = 0 := by simp [Binary.whole, hzero]
    rw [beq_iff, hx, hn]
    cases b.negative <;> rfl
  · have hnat := ofNat_whole hb hpos hwhole
    have hx := unpack_of_ofFloat? hb hpos
    have hsame : Float.ofInt (if b.negative then -(b.whole : ℤ) else b.whole) = x := by
      refine eq_of_unpack ?_
      rw [hx]
      cases hsign : b.negative
      · exact hnat
      · obtain ⟨k, hk⟩ : ∃ k, b.whole = k + 1 := by
          refine Nat.exists_eq_succ_of_ne_zero fun hn => ?_
          have hvalue := Binary.value_of_isWhole hwhole
          rw [hn, Binary.value] at hvalue
          have : (0 : ℚ) < b.significand * 2 ^ b.exponent := by positivity
          simp [← hvalue] at this
        rw [hk] at hnat ⊢
        show (-(Float.ofNat (k + 1))).toModel.unpack = _
        rw [unpack_neg, hnat]
        rfl
    have hnan : x.isNaN = false := by
      rw [Bool.eq_false_iff, Ne, isNaN_iff, hx]
      simp
    rw [hsame]
    exact beq_self hnan

end Integers

end Blockwork.Number
