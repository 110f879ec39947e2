import Blockwork.Proofs.Number.Values

/-! The neighbours of a double and the doubles that numbers are rounded to. No double lies between a
number and the double it is rounded to, and every number of normal size is rounded to one. -/

namespace Blockwork.Number

namespace Binary

variable {b d : Binary} {q : ℚ}

theorem IsDouble.succ_le (hb : b.IsDouble) (hd : d.IsDouble) (h : b.value < d.value) :
    (b.significand + 1) * 2 ^ b.exponent ≤ d.value := by
  have hle : b.exponent ≤ d.exponent := by
    by_contra hgt
    exact absurd (hd.value_lt hb (not_le.1 hgt)) h.not_gt
  obtain ⟨k, hk⟩ := Int.le.dest hle
  have hunit : (0 : ℚ) < 2 ^ b.exponent := by positivity
  have hvalue : d.value = (d.significand * 2 ^ k : ℕ) * 2 ^ b.exponent := by
    rw [value, ← hk, zpow_add₀ two_ne_zero, zpow_natCast]
    push_cast
    ring
  rw [hvalue] at h ⊢
  have hlt : b.significand < d.significand * 2 ^ k := by
    have := lt_of_mul_lt_mul_right h hunit.le
    exact_mod_cast this
  have hsucc : (b.significand + 1 : ℚ) ≤ (d.significand * 2 ^ k : ℕ) := by exact_mod_cast hlt
  exact mul_le_mul_of_nonneg_right hsucc hunit.le

theorem IsDouble.le_pred (hb : b.IsDouble) (hd : d.IsDouble) (h : d.value < b.value) :
    d.value ≤ (b.significand - 2 * b.reach) * 2 ^ b.exponent := by
  have hunit : (0 : ℚ) < 2 ^ b.exponent := by positivity
  have hreach := b.reach_bounds.2
  rcases lt_trichotomy d.exponent b.exponent with hlt | heq | hgt
  · have hleast := hd.least
    have hfull : 2 ^ 52 ≤ b.significand := hb.full.resolve_right (by omega)
    have hshort : (d.significand : ℚ) + 1 ≤ 2 ^ 53 := by exact_mod_cast hd.short
    have hhalf : (2 : ℚ) ^ b.exponent = 2 * 2 ^ (b.exponent - 1) := by
      rw [← zpow_one_add₀ two_ne_zero, add_sub_cancel]
    have hunit' : (2 : ℚ) ^ d.exponent ≤ 2 ^ (b.exponent - 1) :=
      zpow_le_zpow_right₀ one_le_two (by omega)
    have hbelow : d.value ≤ (2 ^ 52 - 1 / 2) * 2 ^ b.exponent := by
      calc d.value ≤ (2 ^ 53 - 1) * 2 ^ (b.exponent - 1) :=
            mul_le_mul (by linarith) hunit' (by positivity) (by norm_num)
        _ = (2 ^ 52 - 1 / 2) * 2 ^ b.exponent := by
            rw [hhalf]
            ring
    refine hbelow.trans (mul_le_mul_of_nonneg_right ?_ hunit.le)
    -- below a power of two the doubles are twice as close, and the interval is half as long
    by_cases hpower : b.significand = 2 ^ 52
    · rw [reach, if_pos ⟨hpower, by omega⟩, hpower]
      norm_num
    · have hsucc : (2 ^ 52 + 1 : ℚ) ≤ b.significand := by
        exact_mod_cast Nat.lt_of_le_of_ne hfull (Ne.symm hpower)
      linarith
  · rw [value, value, heq] at h
    have hlt : d.significand < b.significand := by
      have := lt_of_mul_lt_mul_right h hunit.le
      exact_mod_cast this
    have hsucc : (d.significand + 1 : ℚ) ≤ b.significand := by exact_mod_cast hlt
    rw [value, heq]
    exact mul_le_mul_of_nonneg_right (by linarith) hunit.le
  · exact absurd (hb.value_lt hd hgt) h.not_gt

theorem Attracts.le_value (hb : b.IsDouble) (hd : d.IsDouble) (h : b.Attracts q)
    (hle : d.value ≤ q) : d.value ≤ b.value := by
  by_contra hlt
  have hunit : (0 : ℚ) < 2 ^ b.exponent := by positivity
  have hsucc := hb.succ_le hd (not_le.1 hlt)
  have hbound := h.bounds.2
  nlinarith

theorem Attracts.value_le (hb : b.IsDouble) (hd : d.IsDouble) (h : b.Attracts q)
    (hle : q ≤ d.value) : b.value ≤ d.value := by
  by_contra hlt
  have hunit : (0 : ℚ) < 2 ^ b.exponent := by positivity
  have hpred := hb.le_pred hd (not_le.1 hlt)
  have hbound := h.bounds.1
  have hreach := b.reach_bounds.1
  nlinarith

end Binary

/-! ### Every number is rounded to a double -/

section Existence

variable {q : ℚ}

theorem exists_roundsTo (hq : 0 < q) : ∃ n, RoundsTo q n := by
  have hfraction : (q.num.toNat / q.den : ℚ) = q := by
    have hnum : ((q.num.toNat : ℕ) : ℚ) = q.num := by
      exact_mod_cast Int.toNat_of_nonneg (Rat.num_nonneg.2 hq.le)
    rw [hnum, Rat.num_div_den]
  have hrepresents := represents_fraction q.num.toNat q.den q.den_pos
  rw [hfraction] at hrepresents
  exact ⟨_, hrepresents.roundsTo⟩

theorem exists_scaled (hq : 0 < q) :
    ∃ y : ℚ, q = y * 2 ^ (Int.log 2 q - 52) ∧ 2 ^ 52 ≤ y ∧ y < 2 ^ 53 := by
  have hunit : (0 : ℚ) < 2 ^ (Int.log 2 q - 52) := by positivity
  have hleading : (2 : ℚ) ^ Int.log 2 q = 2 ^ 52 * 2 ^ (Int.log 2 q - 52) := by
    rw [zpow_sub₀ two_ne_zero, zpow_ofNat]
    field_simp
  refine ⟨q / 2 ^ (Int.log 2 q - 52), by field_simp, ?_, ?_⟩
  · rw [le_div_iff₀ hunit, ← hleading]
    exact_mod_cast Int.zpow_log_le_self (by decide) hq
  · have hnext := Int.lt_zpow_succ_log_self (b := 2) (by decide) q
    push_cast at hnext
    rw [zpow_add_one₀ two_ne_zero, hleading] at hnext
    rw [div_lt_iff₀ hunit]
    linarith

section Scaled

variable {y : ℚ} {n : ℕ} (e : ℤ)

theorem RoundsTo.attracts (h : RoundsTo y n) (hlow : 2 ^ 52 ≤ y) :
    Binary.Attracts ⟨false, n, e⟩ (y * 2 ^ e) := by
  have hunit : (0 : ℚ) < 2 ^ e := by positivity
  have hreach : n - Binary.reach ⟨false, n, e⟩ ≤ y ∧
      (n - 1 / 2 < y → n - Binary.reach ⟨false, n, e⟩ < y) := by
    unfold Binary.reach
    split
    · rename_i hpower
      have hn : (n : ℚ) = 2 ^ 52 := by exact_mod_cast hpower.1
      exact ⟨by linarith, fun _ => by linarith⟩
    · exact ⟨h.bounds.1, id⟩
  rcases h with h | ⟨heven, h⟩
  · exact .inl ⟨mul_lt_mul_of_pos_right (hreach.2 h.1) hunit, mul_lt_mul_of_pos_right h.2 hunit⟩
  · exact .inr ⟨heven, mul_le_mul_of_nonneg_right hreach.1 hunit.le,
      mul_le_mul_of_nonneg_right h.2 hunit.le⟩

theorem RoundsTo.attracts_carry (h : RoundsTo y (2 ^ 53)) (hhigh : y < 2 ^ 53) (he : -1074 ≤ e) :
    Binary.Attracts ⟨false, 2 ^ 52, e + 1⟩ (y * 2 ^ e) := by
  have hunit : (0 : ℚ) < 2 ^ e := by positivity
  have hreach : Binary.reach ⟨false, 2 ^ 52, e + 1⟩ = 1 / 4 := if_pos ⟨rfl, by dsimp only; omega⟩
  have hdouble : (2 : ℚ) ^ (e + 1) = 2 * 2 ^ e := by rw [zpow_add_one₀ two_ne_zero, mul_comm]
  have hlow := h.bounds.1
  push_cast at hlow
  refine .inr ⟨?_, ?_, ?_⟩
  · show 2 ^ 52 % 2 = 0
    norm_num
  · rw [hreach, hdouble]
    push_cast
    nlinarith
  · rw [hdouble]
    push_cast
    nlinarith

theorem isDouble_carry {e : ℤ} (hleast : -1074 ≤ e) (hgreatest : e < 971) :
    (Binary.mk false (2 ^ 52) (e + 1)).IsDouble := by
  have hshort : 2 ^ 52 < 2 ^ 53 := by norm_num
  exact ⟨hshort, by dsimp only; omega, by dsimp only; omega, .inl le_rfl⟩

theorem value_carry (e : ℤ) : Binary.value ⟨false, 2 ^ 52, e + 1⟩ = (2 ^ 53 : ℕ) * 2 ^ e := by
  rw [Binary.value, zpow_add_one₀ two_ne_zero]
  push_cast
  ring

theorem RoundsTo.exists_attracts {e : ℤ} (h : RoundsTo y n) (hlow : 2 ^ 52 ≤ y) (hhigh : y < 2 ^ 53)
    (hleast : -1074 ≤ e) (hgreatest : e < 971) : ∃ b : Binary, b.negative = false ∧ b.IsDouble ∧
      0 < b.significand ∧ b.value = n * 2 ^ e ∧ b.Attracts (y * 2 ^ e) := by
  have hbounds := h.bounds
  have hle : 2 ^ 52 ≤ n := by
    have : (2 ^ 52 : ℚ) < n + 1 := by linarith
    have : 2 ^ 52 < n + 1 := by exact_mod_cast this
    omega
  have hge : n ≤ 2 ^ 53 := by
    have : (n : ℚ) < 2 ^ 53 + 1 := by linarith
    have : n < 2 ^ 53 + 1 := by exact_mod_cast this
    omega
  rcases hge.lt_or_eq with hlt | rfl
  · exact ⟨⟨false, n, e⟩, rfl, ⟨hlt, hleast, hgreatest.le, .inl hle⟩, by dsimp only; omega, rfl,
      h.attracts e hlow⟩
  · exact ⟨⟨false, 2 ^ 52, e + 1⟩, rfl, isDouble_carry hleast hgreatest, Nat.two_pow_pos 52,
      value_carry e, h.attracts_carry e hhigh hleast⟩

end Scaled

theorem exists_attracts (hlow : 2 ^ (-1000 : ℤ) ≤ q) (hhigh : q < 2 ^ (1000 : ℤ)) :
    ∃ b : Binary, b.negative = false ∧ b.IsDouble ∧ 0 < b.significand ∧ b.Attracts q := by
  have hq : 0 < q := lt_of_lt_of_le (by positivity) hlow
  have hlog : -1000 ≤ Int.log 2 q := by
    rw [← Int.zpow_le_iff_le_log (by decide) hq]
    exact_mod_cast hlow
  have hlog' : Int.log 2 q < 1000 := by
    rw [← Int.lt_zpow_iff_log_lt (by decide) hq]
    exact_mod_cast hhigh
  obtain ⟨y, hsplit, hfrom, hto⟩ := exists_scaled hq
  obtain ⟨n, hn⟩ := exists_roundsTo (by linarith : 0 < y)
  obtain ⟨b, hsign, hb, hpos, -, hattracts⟩ := hn.exists_attracts (e := Int.log 2 q - 52) hfrom hto
    (by omega) (by omega)
  rw [← hsplit] at hattracts
  exact ⟨b, hsign, hb, hpos, hattracts⟩

end Existence

end Blockwork.Number
