import Blockwork.Proofs.Number.Count

/-! Doubles and their unpacked forms. A finite double has one significand and exponent, which packing
keeps, and a double is determined by its unpacked form. -/

namespace Blockwork.Number

open Float.Model (UnpackedFloat Format totalExponent)
open Float.Model.UnpackedFloat

namespace Binary

def value (b : Binary) : ℚ := b.significand * 2 ^ b.exponent

/-- The one form that a finite double has. -/
structure IsDouble (b : Binary) : Prop where
  short : b.significand < 2 ^ 53
  least : -1074 ≤ b.exponent
  greatest : b.exponent ≤ 971
  full : 2 ^ 52 ≤ b.significand ∨ b.exponent = -1074

theorem IsDouble.log2_le {b : Binary} (hb : b.IsDouble) : b.significand.log2 ≤ 52 := by
  rcases Nat.eq_zero_or_pos b.significand with hzero | hpos
  · rw [hzero]
    decide
  · have := (Nat.log2_lt (Nat.ne_of_gt hpos)).2 hb.short
    omega

end Binary

theorem toBitVec_ofBitVec (b : BitVec 1) : (Sign.ofBitVec b).toBitVec = b := by
  revert b
  decide

theorem packComponents_unpack (b : BitVec 64) :
    packComponents Format.binary64 (Sign.ofBitVec (@unpackSign Format.binary64 b))
      (@unpackExponent Format.binary64 b) (@unpackMantissa Format.binary64 b) = b := by
  rw [packComponents, toBitVec_ofBitVec]
  ext i hi
  simp only [unpackSign, unpackExponent, unpackMantissa, BitVec.extractLsb]
  grind

theorem eq_of_unpack {x y : Float} (h : x.toModel.unpack = y.toModel.unpack) : x = y := by
  have hpack : ∀ z : Float, z.toModel.toBits.toBitVec =
      UnpackedFloat.pack Format.binary64 z.toModel.unpack := by
    intro z
    by_cases hnan : z.toModel.unpack = .notANumber
    · rw [hnan]
      rw [Float.Model.unpack, unpack_eq] at hnan
      unfold ofFields at hnan
      split at hnan
      · split at hnan
        · cases hnan
        · exact z.toModel.valid.eq_packedNaN ‹_› ‹_›
      · split at hnan
        · split at hnan <;> cases hnan
        · cases hnan
    · rw [Float.Model.unpack, unpack_eq] at hnan ⊢
      rw [pack_ofFields _ _ _ hnan, packComponents_unpack]
  have hbits : x.toModel.toBits = y.toModel.toBits := by
    rw [← UInt64.toBitVec_inj, hpack, hpack, h]
  obtain ⟨⟨xbits, hx⟩⟩ := x
  obtain ⟨⟨ybits, hy⟩⟩ := y
  obtain rfl : xbits = ybits := hbits
  rfl

theorem Binary.IsDouble.exists_fields {b : Binary} (hb : b.IsDouble) (hpos : 0 < b.significand)
    (s : Sign) : ∃ e m, ofFields s e m = .finite s b.significand b.exponent hpos := by
  obtain ⟨hshort, hleast, hgreatest, hfull⟩ := hb
  by_cases hnormal : 2 ^ 52 ≤ b.significand
  · have hexponent : (BitVec.ofNat 11 (b.exponent + 1075).toNat).toNat = (b.exponent + 1075).toNat := by
      rw [BitVec.toNat_ofNat]
      omega
    have hfraction : (BitVec.ofNat 52 (b.significand - 2 ^ 52)).toNat = b.significand - 2 ^ 52 := by
      rw [BitVec.toNat_ofNat, Nat.mod_eq_of_lt (by omega)]
    refine ⟨BitVec.ofNat 11 (b.exponent + 1075).toNat, BitVec.ofNat 52 (b.significand - 2 ^ 52), ?_⟩
    rw [ofFields, if_neg, if_neg]
    · rw [UnpackedFloat.finite.injEq, hfraction, hexponent]
      exact ⟨rfl, by omega, by omega⟩
    · rw [← BitVec.toNat_inj, hexponent]
      show ¬ (b.exponent + 1075).toNat = 0
      omega
    · rw [← BitVec.toNat_inj, hexponent]
      show ¬ (b.exponent + 1075).toNat = 2047
      omega
  · have hfraction : (BitVec.ofNat 52 b.significand).toNat = b.significand := by
      rw [BitVec.toNat_ofNat]
      omega
    refine ⟨0#11, BitVec.ofNat 52 b.significand, ?_⟩
    rw [ofFields, if_neg (by decide), if_pos rfl, dif_neg]
    · congr 1
      omega
    · rw [← BitVec.toNat_inj, hfraction]
      exact Nat.ne_of_gt hpos

theorem unpack_pack {b : Binary} (hb : b.IsDouble) (hpos : 0 < b.significand) (s : Sign) :
    UnpackedFloat.unpack Format.binary64 (UnpackedFloat.pack Format.binary64
      (.finite s b.significand b.exponent hpos)) = .finite s b.significand b.exponent hpos := by
  obtain ⟨e, m, hfields⟩ := hb.exists_fields hpos s
  rw [← hfields, pack_ofFields _ _ _ (by rw [hfields]; simp), unpack_packComponents]

theorem isDouble_of_unpack {x : Float} {s : Sign} {m : ℕ} {e : ℤ} {hm : 0 < m} (negative : Bool)
    (h : x.toModel.unpack = .finite s m e hm) : Binary.IsDouble ⟨negative, m, e⟩ := by
  rw [Float.Model.unpack, unpack_eq] at h
  generalize hexponent : @unpackExponent Format.binary64 x.toModel.toBits.toBitVec = field at h
  generalize @unpackMantissa Format.binary64 x.toModel.toBits.toBitVec = fraction at h
  have hlt : fraction.toNat < 2 ^ 52 := fraction.isLt
  have hfield : field.toNat < 2 ^ 11 := field.isLt
  unfold ofFields at h
  split at h
  · split at h <;> cases h
  · rename_i hlast
    have hlast' : field.toNat ≠ 2047 := fun h => hlast (BitVec.toNat_inj.1 h)
    split at h
    · split at h
      · cases h
      · cases h
        refine ⟨?_, ?_, ?_, .inr rfl⟩ <;> dsimp only <;> omega
    · rename_i hzero
      have hzero' : field.toNat ≠ 0 := fun h => hzero (BitVec.toNat_inj.1 h)
      cases h
      refine ⟨?_, ?_, ?_, .inl ?_⟩ <;> dsimp only <;> omega

theorem isDouble_of_ofFloat? {x : Float} {b : Binary} (h : Binary.ofFloat? x = some b) :
    b.IsDouble := by
  rw [Binary.ofFloat?_eq] at h
  rcases hx : x.toModel.unpack with _ | _ | s | ⟨s, m, e, hm⟩ <;> rw [hx] at h <;> cases h
  · exact ⟨Nat.two_pow_pos 53, Int.le_refl _, by simp, .inr rfl⟩
  · exact isDouble_of_unpack _ hx

theorem unpack_of_ofFloat? {x : Float} {b : Binary} (h : Binary.ofFloat? x = some b)
    (hpos : 0 < b.significand) : x.toModel.unpack =
      .finite (if b.negative then .negative else .positive) b.significand b.exponent hpos := by
  rw [Binary.ofFloat?_eq] at h
  rcases hx : x.toModel.unpack with _ | _ | s | ⟨s, m, e, hm⟩ <;> rw [hx] at h <;> cases h
  · exact absurd hpos (Nat.lt_irrefl 0)
  · cases s <;> rfl

end Blockwork.Number
