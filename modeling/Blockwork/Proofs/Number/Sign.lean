import Mathlib
import Blockwork.Number.Layout

/-! The sign of a double. Its bits are read through the unpacked form that comparison and negation
are defined by. -/

namespace Blockwork.Number

open Float.Model (UnpackedFloat Format)
open Float.Model.UnpackedFloat

section Parts

variable (s : Sign) (e : BitVec 11) (m : BitVec 52)

def ofFields : UnpackedFloat :=
  if e = -1#_ then
    if m = 0#_ then .infinity s else .notANumber
  else if e = 0#_ then
    if h : m = 0#_ then .zero s
    else .finite s m.toNat (-1074) (by simpa [BitVec.toNat_pos, BitVec.pos_iff_ne_zero])
  else .finite s (2 ^ 52 + m.toNat) (e.toNat - 1075) (by omega)

theorem toNat_implicit : (1#1 ++ m).toNat = 2 ^ 52 + m.toNat := by
  rw [BitVec.toNat_append, ← Nat.shiftLeft_add_eq_or_of_lt m.isLt]
  rfl

theorem unpackSign_packComponents :
    unpackSign (packComponents Format.binary64 s e m) = s.toBitVec := by
  simp only [unpackSign, packComponents, BitVec.extractLsb]
  ext i hi
  grind

theorem unpack_eq (b : BitVec 64) : UnpackedFloat.unpack Format.binary64 b =
    ofFields (Sign.ofBitVec (@unpackSign Format.binary64 b))
      (@unpackExponent Format.binary64 b) (@unpackMantissa Format.binary64 b) := by
  unfold UnpackedFloat.unpack ofFields
  refine ite_congr rfl (fun _ => rfl) fun _ => ite_congr rfl (fun he => ?_) fun _ => ?_
  · refine dite_congr rfl (fun _ => rfl) fun _ => ?_
    congr 1
    have he : (@unpackExponent Format.binary64 b).toNat = 0 := congrArg BitVec.toNat he
    rw [he]
    rfl
  · congr 1
    exact toNat_implicit _

theorem unpack_packComponents :
    UnpackedFloat.unpack Format.binary64 (packComponents Format.binary64 s e m) = ofFields s e m := by
  have hs : Sign.ofBitVec s.toBitVec = s := by cases s <;> rfl
  rw [unpack_eq, unpackSign_packComponents, unpackExponent_packComponents,
    unpackMantissa_packComponents, hs]

theorem neg_ofFields : (ofFields s e m).neg = ofFields (-s) e m := by
  unfold ofFields
  split
  · split <;> rfl
  · split
    · split <;> rfl
    · rfl

theorem pack_subnormal (hm : 0 < m.toNat) :
    UnpackedFloat.pack Format.binary64 (.finite s m.toNat (-1074) hm) =
      packComponents Format.binary64 s 0#11 m := by
  have hlog : ¬ m.toNat.log2 + 1 = 53 := by
    have := (Nat.log2_lt (Nat.ne_of_gt hm)).2 m.isLt
    omega
  show (if 2 ^ 11 ≤ 2 then packedInfinity Format.binary64 s
    else if m.toNat.log2 + 1 = 53 then
      packComponents Format.binary64 s 1#11 (BitVec.ofNat 52 m.toNat)
    else packComponents Format.binary64 s 0#11 (BitVec.ofNat 52 m.toNat)) = _
  rw [if_neg (by decide), if_neg hlog, BitVec.ofNat_toNat, BitVec.setWidth_eq]

theorem pack_normal (he : e ≠ -1#_) (hm : 0 < 2 ^ 52 + m.toNat) :
    UnpackedFloat.pack Format.binary64 (.finite s (2 ^ 52 + m.toNat) (e.toNat - 1075) hm) =
      packComponents Format.binary64 s e m := by
  have hfraction : m.toNat < 2 ^ 52 := m.isLt
  have hlog : (2 ^ 52 + m.toNat).log2 + 1 = 53 := by
    have hge := (Nat.le_log2 (Nat.ne_of_gt hm)).2 (Nat.le_add_right (2 ^ 52) m.toNat)
    have hlt := (@Nat.log2_lt (2 ^ 52 + m.toNat) 53 (by omega)).2 (by omega)
    omega
  have hexponent : ((e.toNat : Int) - 1075 + 1023 + 52).toNat = e.toNat := by omega
  have hfits : ¬ 2 ^ 11 ≤ e.toNat + 1 := by
    intro hle
    have hlt : e.toNat < 2 ^ 11 := e.isLt
    refine he (BitVec.toNat_inj.1 ?_)
    show e.toNat = 2047
    omega
  show (if 2 ^ 11 ≤ ((e.toNat : Int) - 1075 + 1023 + 52).toNat + 1 then
      packedInfinity Format.binary64 s
    else if (2 ^ 52 + m.toNat).log2 + 1 = 53 then
      packComponents Format.binary64 s
        (BitVec.ofNat 11 ((e.toNat : Int) - 1075 + 1023 + 52).toNat)
        (BitVec.ofNat 52 (2 ^ 52 + m.toNat))
    else packComponents Format.binary64 s 0#11 (BitVec.ofNat 52 (2 ^ 52 + m.toNat))) = _
  have himplicit : BitVec.ofNat 52 (2 ^ 52 + m.toNat) = m := by
    refine BitVec.toNat_inj.1 ?_
    rw [BitVec.toNat_ofNat]
    omega
  rw [hexponent, if_neg hfits, if_pos hlog, himplicit, BitVec.ofNat_toNat, BitVec.setWidth_eq]

theorem pack_ofFields (h : ofFields s e m ≠ .notANumber) :
    UnpackedFloat.pack Format.binary64 (ofFields s e m) = packComponents Format.binary64 s e m := by
  unfold ofFields at h ⊢
  split at h
  · split at h
    · subst_vars
      rfl
    · exact absurd rfl h
  · rename_i hlast
    rw [if_neg hlast]
    split at h
    · rename_i hzero
      rw [if_pos hzero]
      subst hzero
      split at h
      · subst_vars
        rfl
      · rename_i hm
        rw [dif_neg hm]
        exact pack_subnormal s m _
    · rename_i hzero
      rw [if_neg hzero]
      exact pack_normal s e m hlast _

end Parts

theorem unpack_neg (x : Float) : (-x).toModel.unpack = x.toModel.unpack.neg := by
  obtain ⟨s, e, m, hx⟩ : ∃ s e m, x.toModel.unpack = ofFields s e m := ⟨_, _, _, unpack_eq _⟩
  show UnpackedFloat.unpack Format.binary64
    (UnpackedFloat.pack Format.binary64 x.toModel.unpack.neg) = _
  rw [hx, neg_ofFields]
  by_cases hnan : ofFields (-s) e m = .notANumber
  · rw [hnan]
    rfl
  · rw [pack_ofFields _ _ _ hnan, unpack_packComponents]

def Binary.ofUnpacked? : UnpackedFloat → Option Binary
  | .notANumber | .infinity _ => none
  | .zero s => some ⟨s == .negative, 0, -1074⟩
  | .finite s m e _ => some ⟨s == .negative, m, e⟩

theorem toNat_unpackMantissa (b : BitVec 64) :
    (@unpackMantissa Format.binary64 b).toNat = b.toNat % Nat.pow 2 52 := by
  simp [unpackMantissa]

theorem toNat_unpackExponent (b : BitVec 64) :
    (@unpackExponent Format.binary64 b).toNat = b.toNat / Nat.pow 2 52 % Nat.pow 2 11 := by
  simp [unpackExponent, Nat.shiftRight_eq_div_pow]

theorem isNegative_unpackSign (b : BitVec 64) :
    (Sign.ofBitVec (@unpackSign Format.binary64 b) == .negative) =
      decide (b.toNat / Nat.pow 2 63 = 1) := by
  have hlt : b.toNat / 2 ^ 63 < 2 := by omega
  have hsign : (@unpackSign Format.binary64 b).toNat = b.toNat / 2 ^ 63 := by
    simp [unpackSign, Nat.shiftRight_eq_div_pow]
    omega
  have hzero : @unpackSign Format.binary64 b = 0#1 ↔ b.toNat / 2 ^ 63 = 0 := by
    rw [← hsign, ← BitVec.toNat_inj]
    rfl
  show (Sign.ofBitVec _ == .negative) = decide (b.toNat / 2 ^ 63 = 1)
  unfold Sign.ofBitVec
  split
  · rw [hzero.1 ‹_›]
    rfl
  · rename_i hne
    rw [hzero] at hne
    rw [show b.toNat / 2 ^ 63 = 1 by omega]
    rfl

theorem Binary.ofFloat?_eq (x : Float) : ofFloat? x = ofUnpacked? x.toModel.unpack := by
  rw [Float.Model.unpack, unpack_eq]
  have hsign := isNegative_unpackSign x.toModel.toBits.toBitVec
  have hfield := toNat_unpackExponent x.toModel.toBits.toBitVec
  have hfraction := toNat_unpackMantissa x.toModel.toBits.toBitVec
  have hbits : x.toModel.toBits.toBitVec.toNat = x.toBits.toNat := rfl
  rw [hbits] at hsign hfield hfraction
  have hlast : @unpackExponent Format.binary64 x.toModel.toBits.toBitVec = -1#_ ↔
      x.toBits.toNat / Nat.pow 2 52 % Nat.pow 2 11 = 2047 := by
    rw [← hfield, ← BitVec.toNat_inj]
    rfl
  have hzero : @unpackExponent Format.binary64 x.toModel.toBits.toBitVec = 0#_ ↔
      x.toBits.toNat / Nat.pow 2 52 % Nat.pow 2 11 = 0 := by
    rw [← hfield, ← BitVec.toNat_inj]
    rfl
  unfold ofFloat? ofFields
  simp only [hlast, hzero, ← hsign, ← hfield, ← hfraction]
  split
  · split <;> rfl
  · split
    · split
      · rename_i hm
        rw [hm]
        rfl
      · rfl
    · rfl

theorem lt_zero_iff (x : Float) : x < 0 ↔ x.toModel.unpack = .infinity .negative ∨
    ∃ m e h, x.toModel.unpack = .finite .negative m e h := by
  have hlt : x < 0 ↔ (x.toModel.unpack.compare (.zero .positive) == some .lt) = true :=
    decide_eq_true_iff
  rw [hlt]
  rcases x.toModel.unpack with (_ | _) | _ | (_ | _) | ⟨_ | _, _, _, hm⟩ <;>
    simp [UnpackedFloat.compare]
  exact hm

theorem isNaN_iff (x : Float) : x.isNaN = true ↔ x.toModel.unpack = .notANumber := by
  show x.toModel.unpack.isNaN = true ↔ _
  cases x.toModel.unpack <;> simp [UnpackedFloat.isNaN]

end Blockwork.Number
