import Blockwork.Proofs.Number.Order
import Blockwork.Proofs.Number.Sign

/-! The doubles of counts. They are positive but for that of zero: no count is rounded to zero. -/

namespace Blockwork.Number

open Float.Model (UnpackedFloat Format totalExponent)
open Float.Model.UnpackedFloat

def IsFull (least : Int) (x : UnpackedFloat) : Prop :=
  x = .infinity .positive ∨
    ∃ m e h, x = .finite .positive m e h ∧ 2 ^ 52 ≤ m ∧ m < 2 ^ 53 ∧ least ≤ e

theorem compare_zero {least : Int} {x : UnpackedFloat} (h : IsFull least x) :
    x.compare (.zero .positive) = some .gt := by
  obtain rfl | ⟨m, e, h, rfl, -⟩ := h <;> rfl

section Rounding

variable {least e : Int} {m : Nat}

theorem log2_eq (hlow : 2 ^ 52 ≤ m) (hhigh : m < 2 ^ 53) : m.log2 = 52 := by
  have hm : m ≠ 0 := by omega
  have h₁ := (Nat.le_log2 hm).2 hlow
  have h₂ := (Nat.log2_lt hm).2 hhigh
  omega

theorem mantissa_shiftRight (m k : Nat) :
    ((⟨m, false, false⟩ : ExtendedMantissa) >>> k).mantissa = m / 2 ^ k := by
  show (Nat.repeat ExtendedMantissa.shiftRightOne k _).mantissa = _
  induction k with
  | zero => simp [Nat.repeat]
  | succ k ih =>
    rw [Nat.repeat, ExtendedMantissa.shiftRightOne, ih, Nat.div_div_eq_div_mul, Nat.pow_succ]

theorem roundedMantissa_le (em : ExtendedMantissa) :
    em.mantissa ≤ em.roundedMantissa ∧ em.roundedMantissa ≤ em.mantissa + 1 := by
  obtain ⟨m, round, sticky⟩ := em
  have := Nat.mod_lt m Nat.two_pos
  cases round <;> cases sticky <;>
    simp [ExtendedMantissa.roundedMantissa, ExtendedMantissa.accuracy, Accuracy.roundToNearestEven]
  omega

theorem shiftToTargetExponent_eq (hm : 2 ^ 52 ≤ m) (he : -1074 ≤ e) :
    shiftToTargetExponent Format.binary64 m e .exact =
      ((⟨m, false, false⟩ : ExtendedMantissa) >>> (m.log2 - 52), e + (m.log2 - 52 : Nat)) := by
  have hlog := (Nat.le_log2 (by omega : m ≠ 0)).2 hm
  have htarget : Format.binary64.targetExponent (totalExponent m e) = m.log2 + 1 + e - 53 := by
    show max (((m.log2 + 1 : Int) + e) - 53) (-1074) = _
    omega
  have hshift : (((m.log2 + 1 : Int) + e - 53) - e).toNat = m.log2 - 52 := by omega
  rw [shiftToTargetExponent, shiftToExponent]
  simp only [htarget, hshift]
  rfl

theorem isFull_roundWithAccuracy (hm : 2 ^ 52 ≤ m) (he : least ≤ e) (hleast : -1074 ≤ least) :
    IsFull least (roundWithAccuracy Format.binary64 .positive m e .exact) := by
  have hlog := (Nat.le_log2 (by omega : m ≠ 0)).2 hm
  have hlow : 2 ^ 52 * 2 ^ (m.log2 - 52) ≤ m := by
    rw [← Nat.pow_add, Nat.add_sub_cancel' hlog]
    exact Nat.log2_self_le (by omega)
  have hhigh : m < 2 ^ 53 * 2 ^ (m.log2 - 52) := by
    rw [← Nat.pow_add, show 53 + (m.log2 - 52) = m.log2 + 1 by omega]
    exact Nat.lt_log2_self
  have hpos : 0 < 2 ^ (m.log2 - 52) := Nat.two_pow_pos _
  have hlow' := (Nat.le_div_iff_mul_le hpos).2 hlow
  have hhigh' := (Nat.div_lt_iff_lt_mul hpos).2 hhigh
  unfold roundWithAccuracy
  rw [shiftToTargetExponent_eq hm (Int.le_trans hleast he)]
  generalize hem : (⟨m, false, false⟩ : ExtendedMantissa) >>> (m.log2 - 52) = em
  have hmantissa : em.mantissa = m / 2 ^ (m.log2 - 52) := by rw [← hem, mantissa_shiftRight]
  obtain ⟨hle, hge⟩ := roundedMantissa_le em
  rw [hmantissa] at hle hge
  dsimp only
  rw [shiftToTargetExponent_eq (Nat.le_trans hlow' hle) (by omega)]
  dsimp only
  have hlast : 2 ^ 52 ≤ (((⟨em.roundedMantissa, false, false⟩ : ExtendedMantissa) >>>
        (em.roundedMantissa.log2 - 52)).mantissa) ∧
      (((⟨em.roundedMantissa, false, false⟩ : ExtendedMantissa) >>>
        (em.roundedMantissa.log2 - 52)).mantissa) < 2 ^ 53 := by
    rw [mantissa_shiftRight]
    by_cases hcarry : em.roundedMantissa = 2 ^ 53
    · rw [hcarry]
      decide
    · have hfits : em.roundedMantissa < 2 ^ 53 := by omega
      rw [log2_eq (Nat.le_trans hlow' hle) hfits]
      simpa using ⟨Nat.le_trans hlow' hle, hfits⟩
  rw [dif_neg (by omega)]
  exact .inr ⟨_, _, _, rfl, hlast.1, hlast.2, by omega⟩

theorem IsFull.unpack_pack {x : UnpackedFloat} (h : IsFull least x) (hleast : -1074 ≤ least) :
    IsFull least (UnpackedFloat.unpack Format.binary64 (UnpackedFloat.pack Format.binary64 x)) := by
  obtain rfl | ⟨m, e, hm, rfl, hlow, hhigh, he⟩ := h
  · exact .inl rfl
  have hlog := log2_eq hlow hhigh
  show IsFull least (UnpackedFloat.unpack Format.binary64
    (if 2 ^ 11 ≤ (e + 1023 + 52).toNat + 1 then packedInfinity Format.binary64 .positive
    else if m.log2 + 1 = 53 then
      packComponents Format.binary64 .positive (BitVec.ofNat 11 (e + 1023 + 52).toNat)
        (BitVec.ofNat 52 m)
    else packComponents Format.binary64 .positive 0#11 (BitVec.ofNat 52 m)))
  split
  · exact .inl rfl
  · have hexponent : (BitVec.ofNat 11 (e + 1023 + 52).toNat).toNat = (e + 1075).toNat := by
      rw [BitVec.toNat_ofNat]
      omega
    have hfraction : (BitVec.ofNat 52 m).toNat = m - 2 ^ 52 := by
      rw [BitVec.toNat_ofNat]
      omega
    rw [if_pos (by rw [hlog]), unpack_packComponents, ofFields, if_neg, if_neg]
    · refine .inr ⟨_, _, _, rfl, ?_, ?_, ?_⟩ <;> omega
    · rw [← BitVec.toNat_inj, hexponent]
      show ¬ (e + 1075).toNat = 0
      omega
    · rw [← BitVec.toNat_inj, hexponent]
      show ¬ (e + 1075).toNat = 2047
      omega

end Rounding

theorem ofNat_eq_round {n : ℕ} (hn : 0 < n) :
    UnpackedFloat.ofNat Format.binary64 n = UnpackedFloat.round Format.binary64 .positive n 0 := by
  unfold UnpackedFloat.ofNat ofInt UnpackedFloat.normalize
  have hcompare : compare (n : Int) 0 = .gt := by
    rw [Int.compare_eq_gt]
    omega
  rw [hcompare]
  rfl

theorem isFull_ofNat {n : Nat} (hn : 0 < n) (hfits : n < 2 ^ 53) :
    IsFull (-52) (UnpackedFloat.ofNat Format.binary64 n) := by
  have hlog : n.log2 ≤ 52 := by
    have := (Nat.log2_lt (by omega : n ≠ 0)).2 hfits
    omega
  rw [ofNat_eq_round hn]
  have htarget : Format.binary64.targetExponent (totalExponent n 0) = (n.log2 : Int) - 52 := by
    show max (((n.log2 + 1 : Int) + 0) - 53) (-1074) = _
    omega
  have hshift : ((0 : Int) - ((n.log2 : Int) - 52)).toNat = 52 - n.log2 := by omega
  unfold UnpackedFloat.round decreaseExponent
  simp only [htarget, hshift]
  refine isFull_roundWithAccuracy ?_ (by omega) (by decide)
  rw [Nat.shiftLeft_eq]
  calc 2 ^ 52 = 2 ^ n.log2 * 2 ^ (52 - n.log2) := by
        rw [← Nat.pow_add, Nat.add_sub_cancel' hlog]
    _ ≤ n * 2 ^ (52 - n.log2) := Nat.mul_le_mul_right _ (Nat.log2_self_le (by omega))

theorem unpack_mul (x y : Float) : (x * y).toModel.unpack =
    UnpackedFloat.unpack Format.binary64 (UnpackedFloat.pack Format.binary64
      (UnpackedFloat.mul Format.binary64 x.toModel.unpack y.toModel.unpack)) := rfl

theorem unpack_toFloat (n : UInt64) : n.toFloat.toModel.unpack =
    UnpackedFloat.unpack Format.binary64 (UnpackedFloat.pack Format.binary64
      (UnpackedFloat.ofNat Format.binary64 n.toNat)) := rfl

theorem ofScientific_zero {n : Nat} (hn : n ≠ 0) :
    UnpackedFloat.ofScientific Format.binary64 n (Int.ofNat 0) =
      roundWithAccuracy Format.binary64 .positive (n <<< 53 * 10 ^ 0) (-53 + 0) .exact := by
  have hlarge : ¬ Int.ofNat 0 > 2 ^ Format.binary64.exponentBits := by decide
  have hsmall : ¬ Int.ofNat 0 < -((2 ^ Format.binary64.exponentBits : Int) + n.log2) := by
    show ¬ (0 : Int) < -(2 ^ 11 + n.log2)
    omega
  rw [UnpackedFloat.ofScientific, dif_neg hn, if_neg hlarge, if_neg hsmall,
    if_pos (by decide)]
  rfl

theorem isFull_unpack_ofNat {n : Nat} (hn : 0 < n) :
    IsFull (-104) (Float.ofNat n).toModel.unpack := by
  have hone : (Float.exactlyRepresentablePowersOfTen[0]).toModel.unpack =
      .finite .positive (2 ^ 52) (-52) (by decide) := rfl
  rw [Float.ofNat]
  show IsFull (-104) (Float.ofScientific n false 0).toModel.unpack
  unfold Float.ofScientific
  by_cases hfits : n < 2 ^ 53
  · rw [dif_pos ⟨hfits, Nat.zero_le _⟩]
    have hword : n.toUInt64.toNat = n := UInt64.toNat_ofNat_of_lt' (by show n < 2 ^ 64; omega)
    simp only [Bool.false_eq_true, if_false]
    rw [unpack_mul, hone, unpack_toFloat, hword]
    refine IsFull.unpack_pack ?_ (by decide)
    obtain hx | ⟨m, e, hm, hx, hlow, -, he⟩ := (isFull_ofNat hn hfits).unpack_pack (by decide)
    · rw [hx]
      exact .inl rfl
    · rw [hx]
      exact isFull_roundWithAccuracy (by omega) (by omega) (by decide)
  · rw [dif_neg fun h => hfits h.1]
    simp only [Bool.false_eq_true, if_false]
    have hmodel : (Float.ofModel (Float.Model.ofScientific n (Int.ofNat 0))).toModel.unpack =
        UnpackedFloat.unpack Format.binary64 (UnpackedFloat.pack Format.binary64
          (UnpackedFloat.ofScientific Format.binary64 n (Int.ofNat 0))) := rfl
    rw [hmodel]
    refine IsFull.unpack_pack ?_ (by decide)
    rw [ofScientific_zero (Nat.pos_iff_ne_zero.1 hn)]
    refine isFull_roundWithAccuracy ?_ (by decide) (by decide)
    rw [Nat.pow_zero, Nat.mul_one, Nat.shiftLeft_eq]
    omega

theorem ofNat_beq_zero (n : Nat) : (Float.ofNat n == 0) = decide (n = 0) := by
  by_cases hn : n = 0
  · subst hn
    rfl
  · have hgt := compare_zero (isFull_unpack_ofNat (Nat.pos_of_ne_zero hn))
    rw [decide_eq_false hn, Bool.eq_false_iff, Ne, beq_iff]
    show ¬ (Float.ofNat n).toModel.unpack.compare (.zero .positive) = some .eq
    rw [hgt]
    simp

end Blockwork.Number
