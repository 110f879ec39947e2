import Blockwork.Proofs.Number.Integers

/-! Finite doubles as signed rational numbers. The comparisons of doubles are those of their values,
and a result that is a double is exact. -/

namespace Blockwork.Number

open Float.Model (UnpackedFloat Format totalExponent)
open Float.Model.UnpackedFloat

def Binary.signed (b : Binary) : ℚ := if b.negative then -b.value else b.value

def value? (x : Float) : Option ℚ := (Binary.ofFloat? x).map Binary.signed

section Magnitudes

variable {b b' : Binary}

theorem Binary.signed_of_negative (h : b.negative = true) : b.signed = -b.value := if_pos h

theorem Binary.signed_of_not_negative (h : b.negative = false) : b.signed = b.value :=
  if_neg (h ▸ Bool.false_ne_true)

theorem Binary.value_pos (hpos : 0 < b.significand) : 0 < b.value := by
  have hm : (0 : ℚ) < b.significand := by exact_mod_cast hpos
  unfold value
  positivity

theorem Binary.value_nonneg (b : Binary) : 0 ≤ b.value := by
  unfold value
  positivity

theorem Binary.abs_signed (b : Binary) : |b.signed| = b.value := by
  unfold signed
  split
  · rw [abs_neg, abs_of_nonneg b.value_nonneg]
  · rw [abs_of_nonneg b.value_nonneg]

theorem Binary.value_eq_zero (hzero : b.significand = 0) : b.value = 0 := by
  simp [value, hzero]

theorem Binary.signed_eq_zero (hzero : b.significand = 0) : b.signed = 0 := by
  simp [signed, Binary.value_eq_zero hzero]

theorem Binary.signed_ne_zero (hpos : 0 < b.significand) : b.signed ≠ 0 := by
  have hvalue := Binary.value_pos hpos
  unfold signed
  split <;> linarith

/-- A double of a greater exponent is greater: it has all its bits in use. -/
theorem Binary.IsDouble.value_lt (hb : b.IsDouble) (hb' : b'.IsDouble)
    (h : b.exponent < b'.exponent) : b.value < b'.value := by
  have hfull : 2 ^ 52 ≤ b'.significand := by
    rcases hb'.full with hfull | hleast
    · exact hfull
    · have := hb.least
      omega
  have hfull' : (2 : ℚ) ^ 52 ≤ b'.significand := by exact_mod_cast hfull
  have hshort : (b.significand : ℚ) < 2 ^ 53 := by exact_mod_cast hb.short
  have hunit : (2 : ℚ) * 2 ^ b.exponent ≤ 2 ^ b'.exponent := by
    rw [← zpow_one_add₀ two_ne_zero]
    exact zpow_le_zpow_right₀ one_le_two (by omega)
  have hpos : (0 : ℚ) < 2 ^ b.exponent := by positivity
  calc b.value < 2 ^ 53 * 2 ^ b.exponent := mul_lt_mul_of_pos_right hshort hpos
    _ = 2 ^ 52 * (2 * 2 ^ b.exponent) := by ring
    _ ≤ b'.significand * 2 ^ b'.exponent := mul_le_mul hfull' hunit (by positivity) (by positivity)

theorem Binary.IsDouble.compare_eq (hb : b.IsDouble) (hb' : b'.IsDouble) :
    (compare b.exponent b'.exponent).then (compare b.significand b'.significand) =
      compare b.value b'.value := by
  rcases lt_trichotomy b.exponent b'.exponent with hlt | heq | hgt
  · rw [compare_lt_iff_lt.2 hlt, compare_lt_iff_lt.2 (hb.value_lt hb' hlt)]
    rfl
  · have hunit : (0 : ℚ) < 2 ^ b'.exponent := by positivity
    have hvalues : ∀ o, compare b.significand b'.significand = o → compare b.value b'.value = o := by
      unfold value
      rw [heq]
      intro o ho
      cases o with
      | lt =>
        have hlt : (b.significand : ℚ) < b'.significand := by exact_mod_cast compare_lt_iff_lt.1 ho
        exact compare_lt_iff_lt.2 (mul_lt_mul_of_pos_right hlt hunit)
      | eq =>
        rw [compare_eq_iff_eq.1 ho]
        exact compare_eq_iff_eq.2 rfl
      | gt =>
        have hgt : (b'.significand : ℚ) < b.significand := by exact_mod_cast compare_gt_iff_gt.1 ho
        exact compare_gt_iff_gt.2 (mul_lt_mul_of_pos_right hgt hunit)
    rw [compare_eq_iff_eq.2 heq, hvalues _ rfl]
    rfl
  · rw [compare_gt_iff_gt.2 hgt, compare_gt_iff_gt.2 (hb'.value_lt hb hgt)]
    rfl

theorem Binary.IsDouble.eq_of_value (hb : b.IsDouble) (hb' : b'.IsDouble) (h : b.value = b'.value) :
    b.significand = b'.significand ∧ b.exponent = b'.exponent := by
  have hcompare := hb.compare_eq hb'
  rw [compare_eq_iff_eq.2 h, Ordering.then_eq_eq, compare_eq_iff_eq, compare_eq_iff_eq] at hcompare
  exact hcompare.symm

end Magnitudes

section Values

variable {x y : Float} {p q : ℚ} {s : Sign} {m : ℕ} {e : ℤ} {hm : 0 < m}

theorem value?_of_zero (h : x.toModel.unpack = .zero s) : value? x = some 0 := by
  rw [value?, Binary.ofFloat?_eq, h]
  simp [Binary.ofUnpacked?, Binary.signed, Binary.value]

theorem value?_of_finite (h : x.toModel.unpack = .finite s m e hm) :
    value? x = some (Binary.signed ⟨s == .negative, m, e⟩) := by
  rw [value?, Binary.ofFloat?_eq, h]
  rfl

theorem cases_of_value? (h : value? x = some p) :
    (p = 0 ∧ ∃ s, x.toModel.unpack = .zero s) ∨
    ∃ s m e hm, x.toModel.unpack = .finite s m e hm ∧ (Binary.mk false m e).IsDouble ∧
      p = Binary.signed ⟨s == .negative, m, e⟩ := by
  rw [value?, Binary.ofFloat?_eq] at h
  rcases hx : x.toModel.unpack with _ | _ | s | ⟨s, m, e, hm⟩ <;> rw [hx] at h
  · cases h
  · cases h
  · refine .inl ⟨?_, s, rfl⟩
    rw [← Option.some.inj h]
    simp [Binary.signed, Binary.value]
  · exact .inr ⟨s, m, e, hm, rfl, isDouble_of_unpack _ hx, (Option.some.inj h).symm⟩

theorem value?_eq_none (h : value? x = none) :
    x.toModel.unpack = .notANumber ∨ ∃ s, x.toModel.unpack = .infinity s := by
  rw [value?, Option.map_eq_none_iff, Binary.ofFloat?_eq] at h
  rcases hx : x.toModel.unpack with s | _ | s | ⟨s, m, e, hm⟩ <;> rw [hx] at h
  · exact .inr ⟨s, rfl⟩
  · exact .inl rfl
  · cases h
  · cases h

theorem isFinite_iff (x : Float) : x.isFinite = true ↔ (value? x).isSome = true := by
  have hunfold : x.isFinite = x.toModel.unpack.isFinite := rfl
  rw [hunfold, value?, Binary.ofFloat?_eq]
  rcases x.toModel.unpack with _ | _ | s | ⟨s, m, e, hm⟩ <;> rfl

theorem compare_neg_neg (p q : ℚ) : compare (-p) (-q) = (compare p q).swap := by
  rcases lt_trichotomy p q with hlt | rfl | hgt
  · rw [compare_lt_iff_lt.2 hlt, compare_gt_iff_gt.2 (neg_lt_neg hlt)]
    rfl
  · rw [compare_eq_iff_eq.2 rfl, compare_eq_iff_eq.2 rfl]
    rfl
  · rw [compare_gt_iff_gt.2 hgt, compare_lt_iff_lt.2 (neg_lt_neg hgt)]
    rfl

theorem compare_of_value? (hx : value? x = some p) (hy : value? y = some q) :
    x.toModel.unpack.compare y.toModel.unpack = some (compare p q) := by
  have hmagnitude : ∀ {m : ℕ} (e : ℤ), 0 < m → (0 : ℚ) < m * 2 ^ e := fun e hm =>
    Binary.value_pos (b := ⟨false, _, e⟩) hm
  rcases cases_of_value? hx with ⟨hp, s, hunpack⟩ | ⟨s, m, e, hm, hunpack, hb, hp⟩ <;>
    rcases cases_of_value? hy with ⟨hq, s', hunpack'⟩ | ⟨s', m', e', hm', hunpack', hb', hq⟩ <;>
    rw [hunpack, hunpack', hp, hq]
  · rw [compare_eq_iff_eq.2 rfl]
    cases s <;> cases s' <;> rfl
  · have hpos := hmagnitude e' hm'
    cases s'
    · exact congrArg some (compare_gt_iff_gt.2 (neg_lt_zero.2 hpos)).symm
    · exact congrArg some (compare_lt_iff_lt.2 hpos).symm
  · have hpos := hmagnitude e hm
    cases s
    · exact congrArg some (compare_lt_iff_lt.2 (neg_lt_zero.2 hpos)).symm
    · exact congrArg some (compare_gt_iff_gt.2 hpos).symm
  · have hpos := hmagnitude e hm
    have hpos' := hmagnitude e' hm'
    have hcompare := hb.compare_eq hb'
    cases s <;> cases s'
    · exact congrArg some ((congrArg Ordering.swap hcompare).trans (compare_neg_neg _ _).symm)
    · exact congrArg some (compare_lt_iff_lt.2 ((neg_lt_zero.2 hpos).trans hpos')).symm
    · exact congrArg some (compare_gt_iff_gt.2 ((neg_lt_zero.2 hpos').trans hpos)).symm
    · exact congrArg some hcompare

section Comparisons

variable (hx : value? x = some p) (hy : value? y = some q)
include hx hy

theorem lt_iff_of_value? : x < y ↔ p < q := by
  rw [lt_iff, compare_of_value? hx hy, Option.some_inj, compare_lt_iff_lt]

theorem gt_iff_of_value? : x > y ↔ p > q := by
  rw [gt_iff, compare_of_value? hx hy, Option.some_inj, compare_gt_iff_gt]

theorem le_iff_of_value? : x ≤ y ↔ p ≤ q := by
  rw [le_iff, compare_of_value? hx hy, Option.some_inj, Option.some_inj, compare_lt_iff_lt,
    compare_eq_iff_eq, le_iff_lt_or_eq]

theorem ge_iff_of_value? : x ≥ y ↔ p ≥ q := le_iff_of_value? hy hx

theorem beq_iff_of_value? : (x == y) = true ↔ p = q := by
  rw [beq_iff, compare_of_value? hx hy, Option.some_inj, compare_eq_iff_eq]

end Comparisons

theorem beq_iff_value? (hy : value? y = some q) : (x == y) = true ↔ value? x = some q := by
  cases hx : value? x with
  | some p => rw [beq_iff_of_value? hx hy, Option.some_inj]
  | none =>
    refine iff_of_false ?_ (by simp)
    rw [beq_iff]
    rcases cases_of_value? hy with ⟨-, s, hunpack⟩ | ⟨s, m, e, hm, hunpack, -, -⟩ <;>
      rcases value?_eq_none hx with hunpack' | ⟨_ | _, hunpack'⟩ <;>
      rw [hunpack, hunpack'] <;> simp [UnpackedFloat.compare]

end Values

/-! ### Exact results -/

section Results

variable {x y : Float} {p q : ℚ}

theorem unpack_pack_zero (s : Sign) : UnpackedFloat.unpack Format.binary64
    (UnpackedFloat.pack Format.binary64 (.zero s)) = .zero s := by
  cases s <;> rfl

theorem value?_neg (hx : value? x = some p) : value? (-x) = some (-p) := by
  have hneg := unpack_neg x
  rcases cases_of_value? hx with ⟨hp, s, hunpack⟩ | ⟨s, m, e, hm, hunpack, hb, hp⟩ <;>
    rw [hunpack] at hneg
  · rw [value?_of_zero hneg, hp, neg_zero]
  · rw [value?_of_finite hneg, hp]
    cases s
    · exact congrArg some (neg_neg _).symm
    · rfl

theorem value?_abs (hx : value? x = some p) : value? x.abs = some |p| := by
  have habs : x.abs.toModel.unpack = UnpackedFloat.unpack Format.binary64
    (UnpackedFloat.pack Format.binary64 x.toModel.unpack.abs) := rfl
  rcases cases_of_value? hx with ⟨hp, s, hunpack⟩ | ⟨s, m, e, hm, hunpack, hb, hp⟩ <;>
    rw [hunpack] at habs
  · have hzero : x.abs.toModel.unpack = .zero .positive := habs.trans (unpack_pack_zero .positive)
    rw [value?_of_zero hzero, hp, abs_zero]
  · have hpos : (0 : ℚ) < m * 2 ^ e := Binary.value_pos (b := ⟨false, m, e⟩) hm
    have hfinite : x.abs.toModel.unpack = .finite .positive m e hm :=
      habs.trans (unpack_pack hb hm .positive)
    rw [value?_of_finite hfinite, hp]
    cases s
    · exact congrArg some ((abs_neg _).trans (abs_of_pos hpos)).symm
    · exact congrArg some (abs_of_pos hpos).symm

theorem round_eq {b : Binary} {s : Sign} {m : ℕ} {e : ℤ} (hb : b.IsDouble) (hpos : 0 < b.significand)
    (h : b.Attracts (m * 2 ^ e)) : UnpackedFloat.round Format.binary64 s m e =
      .finite s b.significand b.exponent hpos := by
  have hm : 0 < m := by
    rcases Nat.eq_zero_or_pos m with rfl | hm
    · simpa using h.pos hpos
    · exact hm
  obtain ⟨t, ht⟩ : ∃ t, t = Format.binary64.targetExponent (totalExponent m e) := ⟨_, rfl⟩
  obtain ⟨k, hk⟩ : ∃ k : ℕ, k = (e - t).toNat := ⟨_, rfl⟩
  have hround : UnpackedFloat.round Format.binary64 s m e =
      roundWithAccuracy Format.binary64 s (m * 2 ^ k) (e - k) .exact := by
    simp only [UnpackedFloat.round, decreaseExponent, ← ht, ← hk, Nat.shiftLeft_eq]
  have htotal : totalExponent (m * 2 ^ k) (e - k) = totalExponent m e := by
    simp only [totalExponent, log2_mul_two_pow hm]
    push_cast
    ring
  rw [hround, roundWithAccuracy_eq hb hpos h]
  · have hexact : (m * 2 ^ e : ℚ) / 2 ^ (e - k) = (m * 2 ^ k : ℕ) := by
      rw [zpow_sub₀ two_ne_zero, zpow_natCast]
      push_cast
      field_simp
    rw [hexact]
    exact represents_exact _
  · rw [htotal, ← ht]
    omega

theorem normalize_of_attracts {b : Binary} {z : Sign} {n e : ℤ} (hb : b.IsDouble)
    (hpos : 0 < b.significand) (h : b.Attracts |(n * 2 ^ e : ℚ)|) :
    normalize Format.binary64 n e z =
      .finite (if n < 0 then .negative else .positive) b.significand b.exponent hpos := by
  have hunit : (0 : ℚ) < 2 ^ e := by positivity
  rw [abs_mul, abs_of_pos hunit, ← Int.cast_abs, Int.abs_eq_natAbs, Int.cast_natCast] at h
  rcases lt_trichotomy n 0 with hlt | rfl | hgt
  · have hcompare : compare n 0 = .lt := compare_lt_iff_lt.2 hlt
    rw [show n.natAbs = (-n).toNat by omega] at h
    simp only [UnpackedFloat.normalize, hcompare, if_pos hlt]
    exact round_eq hb _ h
  · exact absurd (h.pos hpos) (by simp)
  · have hcompare : compare n 0 = .gt := compare_gt_iff_gt.2 hgt
    rw [show n.natAbs = n.toNat by omega] at h
    simp only [UnpackedFloat.normalize, hcompare, if_neg hgt.not_gt]
    exact round_eq hb _ h

theorem apply_eq (s : Sign) (m k : ℕ) (e : ℤ) : ((s.apply (m <<< k : ℕ) : ℤ) : ℚ) * 2 ^ (e - k) =
    Binary.signed ⟨s == .negative, m, e⟩ := by
  have hshift : ((m <<< k : ℕ) : ℚ) * 2 ^ (e - k) = m * 2 ^ e := by
    rw [Nat.shiftLeft_eq, zpow_sub₀ two_ne_zero, zpow_natCast]
    push_cast
    field_simp
  cases s
  · show ((-((m <<< k : ℕ) : ℤ) : ℤ) : ℚ) * 2 ^ (e - k) = -(m * 2 ^ e)
    rw [← hshift, Int.cast_neg, Int.cast_natCast, neg_mul]
  · exact hshift

theorem add_eq_normalize (s s' : Sign) {m m' : ℕ} (e e' : ℤ) (hm : 0 < m) (hm' : 0 < m') :
    ∃ n least : ℤ, (n * 2 ^ least : ℚ) =
        Binary.signed ⟨s == .negative, m, e⟩ + Binary.signed ⟨s' == .negative, m', e'⟩ ∧
      UnpackedFloat.add Format.binary64 (.finite s m e hm) (.finite s' m' e' hm') =
        normalize Format.binary64 n least .positive := by
  obtain ⟨least, hleast⟩ : ∃ least, least = min e e' := ⟨_, rfl⟩
  obtain ⟨k, hk⟩ : ∃ k : ℕ, k = (e - least).toNat := ⟨_, rfl⟩
  obtain ⟨k', hk'⟩ : ∃ k' : ℕ, k' = (e' - least).toNat := ⟨_, rfl⟩
  refine ⟨s.apply (m <<< k : ℕ) + s'.apply (m' <<< k' : ℕ), least, ?_, ?_⟩
  · rw [← apply_eq s m k e, ← apply_eq s' m' k' e', show e - k = least by omega,
      show e' - k' = least by omega]
    push_cast
    ring
  · simp only [UnpackedFloat.add, decreaseExponent, ← hleast, ← hk, ← hk']

/-- A sum is rounded to the double that its magnitude is near to, and keeps its sign. -/
theorem value?_add_of_attracts {b : Binary} (hx : value? x = some p) (hy : value? y = some q)
    (hp : p ≠ 0) (hq : q ≠ 0) (hb : b.IsDouble) (hpos : 0 < b.significand)
    (h : b.Attracts |p + q|) :
    value? (x + y) = some (if p + q < 0 then -b.value else b.value) := by
  have hadd : (x + y).toModel.unpack = UnpackedFloat.unpack Format.binary64
    (UnpackedFloat.pack Format.binary64
      (UnpackedFloat.add Format.binary64 x.toModel.unpack y.toModel.unpack)) := rfl
  obtain ⟨s, m, e, hm, hunpack, -, hsigned⟩ := (cases_of_value? hx).resolve_left fun h => hp h.1
  obtain ⟨s', m', e', hm', hunpack', -, hsigned'⟩ := (cases_of_value? hy).resolve_left fun h => hq h.1
  obtain ⟨n, least, hexact, hsum⟩ := add_eq_normalize s s' e e' hm hm'
  rw [← hsigned, ← hsigned'] at hexact
  rw [← hexact] at h ⊢
  rw [hunpack, hunpack', hsum, normalize_of_attracts hb hpos h, unpack_pack hb] at hadd
  have hunit : (0 : ℚ) < 2 ^ least := by positivity
  have hsign : (n * 2 ^ least : ℚ) < 0 ↔ n < 0 := by
    rw [mul_neg_iff]
    simp [hunit, hunit.not_gt]
  rw [value?_of_finite hadd]
  by_cases hlt : n < 0
  · rw [if_pos hlt, if_pos (hsign.2 hlt)]
    rfl
  · rw [if_neg hlt, if_neg (mt hsign.1 hlt)]
    rfl

theorem value?_add {b : Binary} (hx : value? x = some p) (hy : value? y = some q) (hb : b.IsDouble)
    (h : b.value = |p + q|) : value? (x + y) = some (p + q) := by
  have hadd : (x + y).toModel.unpack = UnpackedFloat.unpack Format.binary64
    (UnpackedFloat.pack Format.binary64
      (UnpackedFloat.add Format.binary64 x.toModel.unpack y.toModel.unpack)) := rfl
  rcases cases_of_value? hx with ⟨hp, s, hunpack⟩ | ⟨s, m, e, hm, hunpack, hdouble, hp⟩ <;>
    rcases cases_of_value? hy with ⟨hq, s', hunpack'⟩ | ⟨s', m', e', hm', hunpack', hdouble', hq⟩ <;>
    rw [hunpack, hunpack'] at hadd
  · obtain ⟨z, hz⟩ : ∃ z, UnpackedFloat.add Format.binary64 (.zero s) (.zero s') = .zero z := by
      cases s <;> cases s' <;> exact ⟨_, rfl⟩
    rw [hz, unpack_pack_zero] at hadd
    rw [value?_of_zero hadd, hp, hq, add_zero]
  · have hfinite : (x + y).toModel.unpack = .finite s' m' e' hm' :=
      hadd.trans (unpack_pack hdouble' hm' s')
    rw [value?_of_finite hfinite, hp, hq, zero_add]
  · have hfinite : (x + y).toModel.unpack = .finite s m e hm :=
      hadd.trans (unpack_pack hdouble hm s)
    rw [value?_of_finite hfinite, hp, hq, add_zero]
  · by_cases hzero : p + q = 0
    · obtain ⟨n, least, hexact, hsum⟩ := add_eq_normalize s s' e e' hm hm'
      have hn : n = 0 := by
        rw [← hp, ← hq, hzero, mul_eq_zero] at hexact
        exact_mod_cast hexact.resolve_right (by positivity)
      rw [hsum, hn] at hadd
      rw [value?_of_zero (hadd.trans (unpack_pack_zero .positive)), hzero]
    · have hpos : 0 < b.significand := by
        refine Nat.pos_of_ne_zero fun hnone => hzero ?_
        rw [Binary.value_eq_zero hnone, eq_comm, abs_eq_zero] at h
        exact h
      have hattracts := b.attracts_value
      rw [h] at hattracts
      rw [value?_add_of_attracts hx hy (hp ▸ Binary.signed_ne_zero hm)
        (hq ▸ Binary.signed_ne_zero hm') hb hpos hattracts, h]
      split
      · rw [abs_of_neg ‹_›, neg_neg]
      · rw [abs_of_nonneg (not_lt.1 ‹_›)]

end Results

/-! ### Integers -/

section Integers

variable {x y : Float} {m n : ℤ}

theorem exists_isDouble {k : ℕ} (h : k ≤ 2 ^ 53) : ∃ b : Binary, b.IsDouble ∧ b.value = k := by
  rcases Nat.eq_zero_or_pos k with rfl | hpos
  · exact ⟨⟨false, 0, -1074⟩, ⟨by decide, by decide, by decide, .inr rfl⟩, by simp [Binary.value]⟩
  · rcases h.lt_or_eq with hlt | rfl
    · have hlog : k.log2 < 53 := (Nat.log2_lt hpos.ne').2 hlt
      exact ⟨spread k, isDouble_spread hpos (by omega), value_spread_of_lt hpos hlt⟩
    · refine ⟨⟨false, 2 ^ 52, 1⟩, ⟨by decide, by decide, by decide, .inl le_rfl⟩, ?_⟩
      norm_num [Binary.value]

theorem value?_add_int (hx : value? x = some m) (hy : value? y = some n) (h : |m + n| ≤ 2 ^ 53) :
    value? (x + y) = some ((m + n : ℤ) : ℚ) := by
  rw [Int.abs_eq_natAbs] at h
  obtain ⟨b, hb, hvalue⟩ := exists_isDouble (by exact_mod_cast h : (m + n).natAbs ≤ 2 ^ 53)
  rw [Nat.cast_natAbs] at hvalue
  push_cast at hvalue ⊢
  exact value?_add hx hy hb hvalue

end Integers

/-! ### Small numbers -/

theorem value?_zero : value? 0.0 = some 0 := by
  have h : Binary.ofFloat? 0.0 = some ⟨false, 0, -1074⟩ := by decide +kernel
  rw [value?, h]
  norm_num [Binary.signed, Binary.value]

theorem value?_half : value? 0.5 = some (1 / 2) := by
  have h : Binary.ofFloat? 0.5 = some ⟨false, 2 ^ 52, -53⟩ := by decide +kernel
  rw [value?, h]
  norm_num [Binary.signed, Binary.value]

theorem value?_one : value? 1.0 = some 1 := by
  have h : Binary.ofFloat? 1.0 = some ⟨false, 2 ^ 52, -52⟩ := by decide +kernel
  rw [value?, h]
  norm_num [Binary.signed, Binary.value]

theorem value?_two : value? 2.0 = some 2 := by
  have h : Binary.ofFloat? 2.0 = some ⟨false, 2 ^ 52, -51⟩ := by decide +kernel
  rw [value?, h]
  norm_num [Binary.signed, Binary.value]

theorem value?_three : value? 3.0 = some 3 := by
  have h : Binary.ofFloat? 3.0 = some ⟨false, 3 * 2 ^ 51, -51⟩ := by decide +kernel
  rw [value?, h]
  norm_num [Binary.signed, Binary.value]

end Blockwork.Number
