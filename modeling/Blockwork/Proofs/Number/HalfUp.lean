import Blockwork.Proofs.Number.Neighbours
import Blockwork.Proofs.Number.Remainders

/-! Rounding by the floor of a sum with one half. The sum is itself rounded to a double, and its
floor is that of the exact sum unless this takes it up to the next whole number. -/

namespace Blockwork.Number

section Sums

variable {x y : Float} {p q : ℚ} {m : ℕ} {e : ℤ}

theorem exists_isDouble_mul (hm : m ≤ 2 ^ 53) (hleast : -1074 ≤ e) (hgreatest : e < 971) :
    ∃ b : Binary, b.IsDouble ∧ b.value = m * 2 ^ e := by
  rcases hm.lt_or_eq with hlt | rfl
  · obtain ⟨e', hdecoded, -⟩ :=
      Binary.ofFloat?_toFloat (b := ⟨false, m, e⟩) hlt hleast hgreatest.le
    have hvalue := Binary.value?_toFloat (b := ⟨false, m, e⟩) hlt hleast hgreatest.le
    rw [value?, hdecoded, Option.map_some, Option.some_inj] at hvalue
    exact ⟨_, isDouble_of_ofFloat? hdecoded, hvalue⟩
  · exact ⟨_, isDouble_carry hleast hgreatest, value_carry e⟩

theorem value?_floor_int (hy : value? y = some p) : value? (floor y) = some (⌊p⌋ : ℚ) := by
  obtain ⟨b, hb, rfl⟩ := Option.map_eq_some_iff.1 hy
  cases hsign : b.negative with
  | false =>
    rw [value?_floor hb hsign, Binary.signed_of_not_negative hsign,
      natCast_floor_eq_intCast_floor b.value_nonneg]
  | true =>
    have hsigned := Binary.signed_of_negative hsign
    rw [floor_eq, hb, hsigned]
    dsimp only
    split
    · rename_i hwhole
      have hcast : (-b.whole : ℚ) = (-(b.whole : ℤ) : ℤ) := by push_cast; rfl
      rw [hy, hsigned, ← Binary.value_of_isWhole hwhole, hcast, Int.floor_intCast]
    · rename_i hwhole
      have hexponent : b.exponent < 0 := by
        by_contra hge
        exact hwhole (by simp [Binary.isWhole, not_lt.1 hge])
      have hle : b.whole ≤ b.significand := by
        rw [Binary.whole, show b.exponent.toNat = 0 by omega]
        exact (Nat.div_le_self _ _).trans_eq (Nat.mul_one _)
      have hshort := (isDouble_of_ofFloat? hb).short
      have hfrom : (b.whole : ℚ) < b.value := by
        refine lt_of_le_of_ne ?_ fun heq => hwhole (Binary.isWhole_of_value heq.symm).1
        rw [b.whole_eq_floor]
        exact Nat.floor_le b.value_nonneg
      have hto : b.value < b.whole + 1 := by
        rw [b.whole_eq_floor]
        exact Nat.lt_floor_add_one b.value
      have hfloor : ⌊-b.value⌋ = -((b.whole + 1 : ℕ) : ℤ) := by
        rw [Int.floor_eq_iff]
        push_cast
        exact ⟨by linarith, by linarith⟩
      rw [value?_neg (value?_ofNat (by omega)), hfloor]
      push_cast
      rfl

theorem exists_sum (hx : value? x = some p) (hy : value? y = some q) (hp : p ≠ 0) (hq : q ≠ 0)
    (hlow : 2 ^ (-1000 : ℤ) ≤ p + q) (hhigh : p + q < 2 ^ (1000 : ℤ)) :
    ∃ v, value? (x + y) = some v ∧ (∀ d : Binary, d.IsDouble → d.value ≤ p + q → d.value ≤ v) ∧
      ∀ d : Binary, d.IsDouble → p + q ≤ d.value → v ≤ d.value := by
  obtain ⟨b, -, hb, hpos, h⟩ := exists_attracts hlow hhigh
  have hsum : 0 < p + q := lt_of_lt_of_le (by positivity) hlow
  have hmagnitude := h
  rw [← abs_of_pos hsum] at hmagnitude
  refine ⟨b.value, ?_, fun d hd hle => h.le_value hb hd hle, fun d hd hle => h.value_le hb hd hle⟩
  rw [value?_add_of_attracts hx hy hp hq hb hpos hmagnitude, if_neg hsum.not_gt]

end Sums

/-! ### The floor of the rounded sum -/

section HalfUp

variable {x : Float} {q : ℚ} {b : Binary}

theorem roundHalfUp_of_exact (hx : value? x = some q) (hb : b.IsDouble) (h : b.value = |q + 1 / 2|) :
    value? (roundHalfUp x) = some (⌊q + 1 / 2⌋ : ℚ) :=
  value?_floor_int (value?_add hx value?_half hb h)

theorem roundHalfUp_of_between {k : ℕ} {d : Binary} (hx : value? x = some q) (hq : q ≠ 0)
    (hlow : 2 ^ (-1000 : ℤ) ≤ q + 1 / 2) (hk : k ≤ 2 ^ 53) (hfrom : k ≤ q + 1 / 2)
    (hd : d.IsDouble) (hto : q + 1 / 2 ≤ d.value) (hnext : d.value < k + 1) :
    value? (roundHalfUp x) = some (⌊q + 1 / 2⌋ : ℚ) := by
  have hhigh : q + 1 / 2 < 2 ^ (1000 : ℤ) := by
    have hk' : (k : ℚ) + 1 ≤ 2 ^ (54 : ℤ) := by
      have : (k : ℚ) ≤ 2 ^ 53 := by exact_mod_cast hk
      norm_num
      linarith
    have hpow : (2 : ℚ) ^ (54 : ℤ) ≤ 2 ^ (1000 : ℤ) := zpow_le_zpow_right₀ one_le_two (by norm_num)
    exact (hto.trans_lt hnext).trans_le (hk'.trans hpow)
  obtain ⟨v, hsum, hbelow, habove⟩ := exists_sum hx value?_half hq (by norm_num) hlow hhigh
  obtain ⟨c, hc, hck⟩ := exists_isDouble hk
  have hfromv := hbelow c hc (hck.trans_le hfrom)
  have htov := habove d hd hto
  rw [hck] at hfromv
  have hfloor : ∀ t : ℚ, k ≤ t → t ≤ d.value → ⌊t⌋ = k := fun t hfrom hto =>
    Int.floor_eq_iff.2 ⟨by exact_mod_cast hfrom, by push_cast; linarith⟩
  rw [roundHalfUp, value?_floor_int hsum, hfloor v hfromv htov, hfloor _ hfrom hto]

theorem sum_of_roundsTo {n : ℕ} (hx : value? x = some q) (hq : q ≠ 0) (h : RoundsTo |q + 1 / 2| n)
    (hlow : 2 ^ 52 ≤ |q + 1 / 2|) (hhigh : |q + 1 / 2| < 2 ^ 53) :
    value? (x + 0.5) = some (if q + 1 / 2 < 0 then -(n : ℚ) else n) := by
  obtain ⟨b, -, hb, hpos, hvalue, hattracts⟩ :=
    h.exists_attracts (e := 0) hlow hhigh (by decide) (by decide)
  rw [zpow_zero, mul_one] at hvalue hattracts
  rw [value?_add_of_attracts hx value?_half hq (by norm_num) hb hpos hattracts, hvalue]

theorem floor_add_half (n : ℤ) : ⌊(n + 1 / 2 : ℚ)⌋ = n :=
  Int.floor_eq_iff.2 ⟨by linarith, by linarith⟩

/-! ### Numbers without a fraction -/

theorem attracts_near (he : 1 ≤ b.exponent) {t : ℚ} (hlow : -(1 / 2) ≤ t) (hhigh : t ≤ 1 / 2) :
    b.Attracts (b.value + t) := by
  have hunit : (2 : ℚ) ≤ 2 ^ b.exponent := by
    simpa using zpow_le_zpow_right₀ (one_le_two (α := ℚ)) he
  unfold Binary.Attracts Binary.value Binary.reach
  by_cases hpower : b.significand = 2 ^ 52
  · rw [if_pos ⟨hpower, by omega⟩]
    refine .inr ⟨by rw [hpower]; norm_num, ?_, ?_⟩
    · linarith
    · linarith
  · rw [if_neg fun h => hpower h.1]
    exact .inl ⟨by linarith, by linarith⟩

theorem exists_int_of_exponent (b : Binary) (he : 0 ≤ b.exponent) : ∃ n : ℤ, b.signed = n := by
  obtain ⟨k, hk⟩ := Int.eq_ofNat_of_zero_le he
  have hvalue : b.value = ((b.significand * 2 ^ k : ℕ) : ℤ) := by
    rw [Binary.value, hk, zpow_natCast]
    push_cast
    rfl
  unfold Binary.signed
  rw [hvalue]
  split
  · exact ⟨-((b.significand * 2 ^ k : ℕ) : ℤ), by push_cast; rfl⟩
  · exact ⟨_, rfl⟩

theorem roundHalfUp_of_large (hx : value? x = some b.signed) (hb : b.IsDouble)
    (hpos : 0 < b.significand) (he : 1 ≤ b.exponent) :
    value? (roundHalfUp x) = some (⌊b.signed + 1 / 2⌋ : ℚ) := by
  have hone : 1 ≤ b.value := by
    have hsignificand : (1 : ℚ) ≤ b.significand := by exact_mod_cast hpos
    exact one_le_mul_of_one_le_of_one_le hsignificand (one_le_zpow₀ one_le_two (by omega))
  have hsum : value? (x + 0.5) = some b.signed := by
    have hadd : b.Attracts |b.signed + 1 / 2| →
        value? (x + 0.5) = some (if b.signed + 1 / 2 < 0 then -b.value else b.value) :=
      value?_add_of_attracts hx value?_half (Binary.signed_ne_zero hpos) (by norm_num) hb hpos
    cases hsign : b.negative with
    | false =>
      have hsum : 0 < b.value + 1 / 2 := by linarith
      rw [Binary.signed_of_not_negative hsign, abs_of_pos hsum, if_neg hsum.not_gt] at hadd
      rw [Binary.signed_of_not_negative hsign]
      exact hadd (attracts_near he (by norm_num) le_rfl)
    | true =>
      have hsum : -b.value + 1 / 2 < 0 := by linarith
      rw [Binary.signed_of_negative hsign, abs_of_neg hsum, if_pos hsum, neg_add, neg_neg] at hadd
      rw [Binary.signed_of_negative hsign]
      exact hadd (attracts_near he le_rfl (by norm_num))
  obtain ⟨n, hn⟩ := exists_int_of_exponent b (by omega)
  rw [roundHalfUp, value?_floor_int hsum, hn, floor_add_half, Int.floor_intCast]

theorem roundsTo_add_half (k : ℕ) : RoundsTo (k + 1 / 2) (k + k % 2) := by
  refine .inr ⟨by omega, ?_⟩
  rcases Nat.mod_two_eq_zero_or_one k with h | h <;> rw [h] <;> push_cast <;>
    constructor <;> linarith

/-- Where the neighbours of a whole number are one away, the even one of it and the next is taken. -/
theorem roundHalfUp_of_unit {n : ℤ} (hx : value? x = some (n : ℚ)) (hlow : 2 ^ 52 ≤ |n|)
    (hhigh : |n| < 2 ^ 53) (hpower : n ≠ -2 ^ 52) :
    value? (roundHalfUp x) = some ((n + n % 2 : ℤ) : ℚ) := by
  suffices hsum : value? (x + 0.5) = some ((n + n % 2 : ℤ) : ℚ) by
    rw [roundHalfUp, value?_floor_int hsum, Int.floor_intCast]
  rw [Int.abs_eq_natAbs] at hlow hhigh
  have hne : (n : ℚ) ≠ 0 := by
    have : n ≠ 0 := by omega
    exact_mod_cast this
  obtain ⟨k, hk, hmagnitude⟩ : ∃ k : ℕ, (n = k ∨ n = -(k + 1 : ℕ)) ∧ |(n + 1 / 2 : ℚ)| = k + 1 / 2 := by
    rcases Int.le_total 0 n with hn | hn
    · obtain ⟨k, rfl⟩ := Int.eq_ofNat_of_zero_le hn
      exact ⟨k, .inl rfl, abs_of_pos (by positivity)⟩
    · obtain ⟨k, rfl⟩ : ∃ k : ℕ, n = -(k + 1 : ℕ) := ⟨(-n - 1).toNat, by omega⟩
      refine ⟨k, .inr rfl, ?_⟩
      rw [abs_of_neg] <;> push_cast <;> linarith
  have hbits : 2 ^ 52 ≤ k ∧ k + 1 ≤ 2 ^ 53 := by omega
  have hbits' : (2 ^ 52 : ℚ) ≤ k ∧ (k + 1 : ℚ) ≤ 2 ^ 53 := by exact_mod_cast hbits
  rw [sum_of_roundsTo hx hne (hmagnitude ▸ roundsTo_add_half k) (by linarith) (by linarith)]
  rcases hk with rfl | rfl
  · have hsign : ¬ ((k : ℤ) + 1 / 2 : ℚ) < 0 := by
      rw [not_lt]
      positivity
    rw [if_neg hsign]
    push_cast
    rfl
  · have hsign : ((-(k + 1 : ℕ) : ℤ) + 1 / 2 : ℚ) < 0 := by
      push_cast
      linarith
    have hsame : -(k + k % 2 : ℤ) = -(k + 1 : ℕ) + -(k + 1 : ℕ) % 2 := by omega
    rw [if_pos hsign, ← hsame]
    push_cast
    rfl

theorem roundHalfUp_of_power (hx : value? x = some (-2 ^ 52)) :
    value? (roundHalfUp x) = some (⌊(-2 ^ 52 + 1 / 2 : ℚ)⌋ : ℚ) := by
  obtain ⟨d, hd, hvalue⟩ := exists_isDouble_mul (m := 2 ^ 53 - 1) (e := -1) (by norm_num)
    (by norm_num) (by norm_num)
  refine roundHalfUp_of_exact hx hd ?_
  rw [hvalue]
  norm_num

/-! ### Numbers with a fraction -/

section Fraction

variable {i : ℕ} {e : ℤ} (he : e = -(i + 1 : ℕ))
include he

theorem half_eq : (2 ^ i : ℕ) * (2 : ℚ) ^ e = 1 / 2 := by
  rw [he, zpow_neg, zpow_natCast, pow_succ]
  push_cast
  field_simp

theorem power_eq (hi : i ≤ 52) : ((2 ^ (52 - i) : ℕ) : ℚ) = (2 ^ 53 : ℕ) * 2 ^ e := by
  have hbits : 52 - i + (i + 1) = 53 := by omega
  rw [he, zpow_neg, zpow_natCast, eq_mul_inv_iff_mul_eq₀ (by positivity)]
  push_cast
  rw [← pow_add, hbits]
  norm_num

end Fraction

/-- A sum of 54 bits starts with a power of two and ends before the next half. -/
theorem roundHalfUp_of_long {i : ℕ} (hx : value? x = some b.value)
    (he : b.exponent = -(i + 1 : ℕ)) (hshort : b.significand < 2 ^ 53)
    (hle : 2 ^ i ≤ b.significand) (hlong : 2 ^ 53 < b.significand + 2 ^ i) :
    value? (roundHalfUp x) = some (⌊b.value + 1 / 2⌋ : ℚ) := by
  have hunit : (0 : ℚ) < 2 ^ b.exponent := by positivity
  have hhalf := half_eq he
  have hbits : i ≤ 52 := by
    have := (Nat.pow_lt_pow_iff_right (by norm_num)).1 (hle.trans_lt hshort)
    omega
  have hfew : i ≠ 0 := by
    rintro rfl
    rw [pow_zero] at hlong
    omega
  have hpower := power_eq he hbits
  have hpower' : 2 ^ (52 - i) ≤ 2 ^ 51 := Nat.pow_le_pow_right (by norm_num) (by omega)
  have hvalue : b.value + 1 / 2 = (b.significand + 2 ^ i : ℕ) * 2 ^ b.exponent := by
    rw [← hhalf, Binary.value]
    push_cast
    ring
  obtain ⟨d, hd, hdvalue⟩ := exists_isDouble_mul (m := 2 * 2 ^ (52 - i) + 1) (e := -1)
    (by omega) (by norm_num) (by norm_num)
  have hmiddle : d.value = (2 ^ (52 - i) : ℕ) + 1 / 2 := by
    rw [hdvalue, zpow_neg_one]
    push_cast
    ring
  -- the significands end before `2 ^ 53`, so the sums end at the half behind the power of two
  have hend : ((2 ^ 53 + 2 ^ i : ℕ) : ℚ) * 2 ^ b.exponent = d.value := by
    rw [Nat.cast_add, add_mul, ← hpower, hhalf, hmiddle]
  have hfrom : ((2 ^ (52 - i) : ℕ) : ℚ) ≤ b.value + 1 / 2 := by
    rw [hvalue, hpower]
    exact mul_le_mul_of_nonneg_right (by exact_mod_cast hlong.le) hunit.le
  have hto : b.value + 1 / 2 ≤ d.value := by
    rw [hvalue, ← hend]
    exact mul_le_mul_of_nonneg_right (by exact_mod_cast Nat.add_le_add_right hshort.le _) hunit.le
  have hpos : 0 < b.value := Binary.value_pos ((Nat.two_pow_pos i).trans_le hle)
  have hone : (1 : ℚ) ≤ (2 ^ (52 - i) : ℕ) := by exact_mod_cast Nat.one_le_two_pow
  have hsmall : (2 : ℚ) ^ (-1000 : ℤ) ≤ 1 := zpow_le_one_of_nonpos₀ one_le_two (by decide)
  exact roundHalfUp_of_between hx hpos.ne' (hsmall.trans (hone.trans hfrom))
    (hpower'.trans (by norm_num)) hfrom hd hto (by linarith)

theorem roundHalfUp_of_fraction (hx : value? x = some b.signed) (hb : b.IsDouble)
    (he : b.exponent < 0) (hhalf : 1 / 2 ≤ b.value) :
    value? (roundHalfUp x) = some (⌊b.signed + 1 / 2⌋ : ℚ) := by
  obtain ⟨i, hi⟩ : ∃ i : ℕ, b.exponent = -(i + 1 : ℕ) := ⟨(-b.exponent - 1).toNat, by omega⟩
  have hunits := half_eq hi
  have hle : 2 ^ i ≤ b.significand := by
    rw [← hunits, Binary.value] at hhalf
    exact_mod_cast le_of_mul_le_mul_right hhalf (by positivity)
  cases hsign : b.negative with
  | true =>
    have hsigned := Binary.signed_of_negative hsign
    obtain ⟨d, hd, hvalue⟩ := exists_isDouble_mul (m := b.significand - 2 ^ i)
      ((Nat.sub_le _ _).trans hb.short.le) hb.least (by omega)
    refine roundHalfUp_of_exact hx hd ?_
    rw [hvalue, hsigned, abs_of_nonpos (by linarith), Nat.cast_sub hle, sub_mul, hunits, Binary.value]
    ring
  | false =>
    have hsigned := Binary.signed_of_not_negative hsign
    rw [hsigned] at hx ⊢
    rcases Nat.lt_or_ge (2 ^ 53) (b.significand + 2 ^ i) with hlong | hfits
    · exact roundHalfUp_of_long hx hi hb.short hle hlong
    · obtain ⟨d, hd, hvalue⟩ := exists_isDouble_mul hfits hb.least (by omega)
      refine roundHalfUp_of_exact hx hd ?_
      rw [hvalue, abs_of_nonneg (by linarith), Nat.cast_add, add_mul, hunits]
      rfl

/-! ### Numbers around zero -/

theorem lt_half_cases (hb : b.IsDouble) (h : b.value < 1 / 2) :
    b.value = 1 / 2 - 2 ^ (-54 : ℤ) ∨ b.value ≤ 1 / 2 - 2 ^ (-53 : ℤ) := by
  have hhalf : (Binary.mk false (2 ^ 52) (-53)).IsDouble :=
    ⟨by norm_num, by norm_num, by norm_num, .inl le_rfl⟩
  have hnext : (Binary.mk false (2 ^ 53 - 1) (-54)).IsDouble :=
    ⟨by norm_num, by norm_num, by norm_num, .inl (by norm_num)⟩
  have hvalue : Binary.value ⟨false, 2 ^ 52, -53⟩ = 1 / 2 := by norm_num [Binary.value]
  have hvalue' : Binary.value ⟨false, 2 ^ 53 - 1, -54⟩ = 1 / 2 - 2 ^ (-54 : ℤ) := by
    norm_num [Binary.value]
  have hpred := hhalf.le_pred hb (h.trans_eq hvalue.symm)
  rcases hpred.lt_or_eq with hlt | heq
  · right
    have hlt' : b.value < Binary.value ⟨false, 2 ^ 53 - 1, -54⟩ := by
      refine hlt.trans_eq ?_
      norm_num [Binary.value, Binary.reach]
    have hpred' := hnext.le_pred hb hlt'
    norm_num [Binary.reach] at hpred' ⊢
    exact hpred'
  · left
    rw [heq]
    norm_num [Binary.reach]

theorem roundHalfUp_of_small (hx : value? x = some q) (hq : q ≠ 0)
    (hlow : 2 ^ (-54 : ℤ) - 1 / 2 ≤ q) (hhigh : q ≤ 1 / 2 - 2 ^ (-53 : ℤ)) :
    value? (roundHalfUp x) = some (⌊q + 1 / 2⌋ : ℚ) := by
  obtain ⟨d, hd, hvalue⟩ := exists_isDouble_mul (m := 2 ^ 53 - 1) (e := -53) (by norm_num)
    (by norm_num) (by norm_num)
  have hone : d.value = 1 - 2 ^ (-53 : ℤ) := by
    rw [hvalue]
    norm_num
  have hpow : (2 : ℚ) ^ (-1000 : ℤ) ≤ 2 ^ (-54 : ℤ) := zpow_le_zpow_right₀ one_le_two (by norm_num)
  have hpos : (0 : ℚ) < 2 ^ (-54 : ℤ) := by positivity
  have hpos' : (0 : ℚ) < 2 ^ (-53 : ℤ) := by positivity
  refine roundHalfUp_of_between hx hq (hpow.trans (by linarith)) (k := 0) (by norm_num) ?_ hd ?_ ?_
  · rw [Nat.cast_zero]
    linarith
  · rw [hone]
    linarith
  · rw [hone, Nat.cast_zero]
    linarith

theorem roundHalfUp_of_lt_half (hx : value? x = some b.signed) (hb : b.IsDouble)
    (hhalf : b.value < 1 / 2) (hne : b.signed ≠ 1 / 2 - 2 ^ (-54 : ℤ)) :
    value? (roundHalfUp x) = some (⌊b.signed + 1 / 2⌋ : ℚ) := by
  rcases Nat.eq_zero_or_pos b.significand with hzero | hpos
  · have hsigned := Binary.signed_eq_zero hzero
    obtain ⟨d, hd, hvalue⟩ := exists_isDouble_mul (m := 1) (e := -1) (by norm_num) (by norm_num)
      (by norm_num)
    refine roundHalfUp_of_exact hx hd ?_
    rw [hvalue, hsigned]
    norm_num
  · have hunit : (2 : ℚ) ^ (-53 : ℤ) = 2 * 2 ^ (-54 : ℤ) := by norm_num
    have hunit' : (0 : ℚ) < 2 ^ (-54 : ℤ) ∧ (2 : ℚ) ^ (-54 : ℤ) ≤ 1 / 4 := by norm_num
    have hvalue := Binary.value_pos hpos
    have hcases := lt_half_cases hb hhalf
    have hne' := Binary.signed_ne_zero hpos
    cases hsign : b.negative with
    | false =>
      rw [Binary.signed_of_not_negative hsign] at hx hne hne' ⊢
      exact roundHalfUp_of_small hx hne' (by linarith) (hcases.resolve_left hne)
    | true =>
      have hbound : b.value ≤ 1 / 2 - 2 ^ (-54 : ℤ) := hcases.elim le_of_eq fun h => by linarith
      rw [Binary.signed_of_negative hsign] at hx hne' ⊢
      exact roundHalfUp_of_small hx hne' (by linarith) (by linarith)

theorem roundHalfUp_below_half (hx : value? x = some (1 / 2 - 2 ^ (-54 : ℤ))) :
    value? (roundHalfUp x) = some 1 := by
  have hdouble : (Binary.mk false (2 ^ 52) (-52)).IsDouble :=
    ⟨by norm_num, by norm_num, by norm_num, .inl le_rfl⟩
  have hattracts : Binary.Attracts ⟨false, 2 ^ 52, -52⟩ |1 / 2 - 2 ^ (-54 : ℤ) + 1 / 2| := by
    refine .inr ⟨rfl, ?_, ?_⟩ <;> norm_num [Binary.reach]
  have hsum := value?_add_of_attracts hx value?_half (by norm_num) (by norm_num) hdouble
    (by norm_num) hattracts
  have hone : (if 1 / 2 - 2 ^ (-54 : ℤ) + 1 / 2 < (0 : ℚ) then -Binary.value ⟨false, 2 ^ 52, -52⟩
      else Binary.value ⟨false, 2 ^ 52, -52⟩) = (1 : ℤ) := by
    rw [if_neg (by norm_num)]
    norm_num [Binary.value]
  rw [hone] at hsum
  rw [roundHalfUp, value?_floor_int hsum, Int.floor_intCast, Int.cast_one]

end HalfUp

/-! ### All numbers -/

/-- The double below one half, and the odd numbers whose neighbours are one away. -/
def Slips (q : ℚ) : Prop :=
  q = 1 / 2 - 2 ^ (-54 : ℤ) ∨ ∃ n : ℤ, q = n ∧ Odd n ∧ 2 ^ 52 < |n| ∧ |n| < 2 ^ 53

variable {x : Float} {q : ℚ}

theorem value?_roundHalfUp (hx : value? x = some q) (h : ¬ Slips q) :
    value? (roundHalfUp x) = some (⌊q + 1 / 2⌋ : ℚ) := by
  obtain ⟨b, hb, rfl⟩ := Option.map_eq_some_iff.1 hx
  have hdouble := isDouble_of_ofFloat? hb
  rcases lt_or_ge b.value (1 / 2) with hhalf | hhalf
  · exact roundHalfUp_of_lt_half hx hdouble hhalf fun heq => h (.inl heq)
  have hpos : 0 < b.significand := by
    refine Nat.pos_of_ne_zero fun hzero => ?_
    rw [Binary.value_eq_zero hzero] at hhalf
    linarith
  rcases lt_trichotomy b.exponent 0 with he | he | he
  · exact roundHalfUp_of_fraction hx hdouble he hhalf
  · obtain ⟨n, hn⟩ := exists_int_of_exponent b he.ge
    have hmagnitude : |n| = b.significand := by
      have hvalue := b.abs_signed
      rw [hn, Binary.value, he, zpow_zero, mul_one] at hvalue
      exact_mod_cast hvalue
    have hfull : 2 ^ 52 ≤ b.significand := hdouble.full.resolve_right (by omega)
    have hshort := hdouble.short
    rw [hn] at h hx ⊢
    by_cases hpower : n = -2 ^ 52
    · rw [hpower] at hx ⊢
      push_cast at hx ⊢
      exact roundHalfUp_of_power hx
    · have heven : n % 2 = 0 := by
        by_contra hodd
        have hodd' : Odd n := Int.odd_iff.2 (by omega)
        have hne : |n| ≠ 2 ^ 52 := by
          rw [Int.abs_eq_natAbs]
          omega
        exact h (.inr ⟨n, rfl, hodd', by omega, by omega⟩)
      rw [roundHalfUp_of_unit hx (by omega) (by omega) hpower, heven, add_zero, floor_add_half]
  · exact roundHalfUp_of_large hx hdouble hpos he

theorem value?_roundHalfUp_of_slips (hx : value? x = some q) (h : Slips q) :
    value? (roundHalfUp x) = some ((⌊q + 1 / 2⌋ + 1 : ℤ) : ℚ) := by
  rcases h with rfl | ⟨n, rfl, hodd, hlow, hhigh⟩
  · have hfloor : ⌊(1 / 2 - 2 ^ (-54 : ℤ) + 1 / 2 : ℚ)⌋ = 0 := by
      rw [Int.floor_eq_iff]
      norm_num
    rw [roundHalfUp_below_half hx, hfloor]
    norm_num
  · have hpower : n ≠ -2 ^ 52 := by
      rintro rfl
      norm_num at hlow
    rw [roundHalfUp_of_unit hx hlow.le hhigh hpower, floor_add_half, Int.odd_iff.1 hodd]

end Blockwork.Number
