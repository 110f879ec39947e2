import Blockwork.Proofs.Number.Doubles

/-! Rounding is correct: the operations of doubles give the double in whose interval the exact result
lies. Mantissas with residual bits are read as rational numbers. -/

namespace Blockwork.Number

open Float.Model (UnpackedFloat Format totalExponent)
open Float.Model.UnpackedFloat

/-! ### Residual bits -/

/-- What a mantissa with its residual bits says of an exact number. -/
def Represents (em : ExtendedMantissa) (x : ℚ) : Prop :=
  match em.roundBit, em.stickyBit with
  | false, false => x = em.mantissa
  | false, true => em.mantissa < x ∧ x < em.mantissa + 1 / 2
  | true, false => x = em.mantissa + 1 / 2
  | true, true => em.mantissa + 1 / 2 < x ∧ x < em.mantissa + 1

/-- A number is rounded to the nearest whole number, to an even one if two are as near. -/
def RoundsTo (x : ℚ) (n : ℕ) : Prop :=
  (n - 1 / 2 < x ∧ x < n + 1 / 2) ∨ (n % 2 = 0 ∧ n - 1 / 2 ≤ x ∧ x ≤ n + 1 / 2)

namespace Represents

variable {em : ExtendedMantissa} {x : ℚ}

theorem bounds (h : Represents em x) : em.mantissa ≤ x ∧ x < em.mantissa + 1 := by
  obtain ⟨m, round, sticky⟩ := em
  cases round <;> cases sticky <;> simp only [Represents] at h ⊢ <;> constructor <;> linarith

theorem shiftRightOne (h : Represents em x) : Represents em.shiftRightOne (x / 2) := by
  obtain ⟨m, round, sticky⟩ := em
  have hm : (m : ℚ) = 2 * (m / 2 : ℕ) + (m % 2 : ℕ) := by exact_mod_cast (Nat.div_add_mod m 2).symm
  rcases Nat.mod_two_eq_zero_or_one m with hbit | hbit <;> rw [hbit] at hm <;> push_cast at hm <;>
    cases round <;> cases sticky <;>
    simp [Represents, ExtendedMantissa.shiftRightOne, hbit] at h ⊢ <;>
    first | linarith | (constructor <;> linarith)

theorem shiftRight (h : Represents em x) (n : ℕ) : Represents (em >>> n) (x / 2 ^ n) := by
  show Represents (Nat.repeat ExtendedMantissa.shiftRightOne n em) _
  induction n with
  | zero => simpa [Nat.repeat] using h
  | succ n ih =>
    rw [Nat.repeat, pow_succ, ← div_div]
    exact ih.shiftRightOne

theorem roundsTo (h : Represents em x) : RoundsTo x em.roundedMantissa := by
  obtain ⟨m, round, sticky⟩ := em
  cases round <;> cases sticky <;>
    simp only [Represents, ExtendedMantissa.roundedMantissa, ExtendedMantissa.accuracy,
      Accuracy.roundToNearestEven] at h ⊢
  · exact .inl ⟨by linarith, by linarith⟩
  · exact .inl ⟨by linarith, by linarith⟩
  · refine .inr ⟨by omega, ?_⟩
    rcases Nat.mod_two_eq_zero_or_one m with hbit | hbit <;> rw [hbit] <;> push_cast <;>
      constructor <;> linarith
  · exact .inl ⟨by push_cast; linarith, by push_cast; linarith⟩

end Represents

theorem RoundsTo.bounds {x : ℚ} {n : ℕ} (h : RoundsTo x n) : n - 1 / 2 ≤ x ∧ x ≤ n + 1 / 2 := by
  rcases h with h | ⟨-, h⟩
  · exact ⟨h.1.le, h.2.le⟩
  · exact h

theorem RoundsTo.not_succ {x : ℚ} {n : ℕ} (h : RoundsTo x n) : ¬ RoundsTo x (n + 1) := by
  rintro (h' | ⟨heven', h'⟩)
  · have := h.bounds
    push_cast at h'
    linarith
  · push_cast at h'
    rcases h with h | ⟨heven, -⟩
    · linarith
    · omega

theorem RoundsTo.unique {x : ℚ} {n k : ℕ} (h : RoundsTo x n) (h' : RoundsTo x k) : n = k := by
  have hn : (n : ℚ) < k + 2 := by linarith [h.bounds.1, h'.bounds.2]
  have hk : (k : ℚ) < n + 2 := by linarith [h.bounds.2, h'.bounds.1]
  have hn' : n < k + 2 := by exact_mod_cast hn
  have hk' : k < n + 2 := by exact_mod_cast hk
  rcases Nat.lt_trichotomy n k with hlt | heq | hgt
  · exact absurd h' (by rw [show k = n + 1 by omega]; exact h.not_succ)
  · exact heq
  · exact absurd h (by rw [show n = k + 1 by omega]; exact h'.not_succ)

/-! ### Doubles and their intervals -/

namespace Binary

/-- How far down the interval of a double extends, in units of its last place. -/
def reach (b : Binary) : ℚ :=
  if b.significand = 2 ^ 52 ∧ -1074 < b.exponent then 1 / 4 else 1 / 2

/-- The magnitude lies in the interval that is rounded to the double. -/
def Attracts (b : Binary) (q : ℚ) : Prop :=
  ((b.significand - b.reach) * 2 ^ b.exponent < q ∧
    q < (b.significand + 1 / 2) * 2 ^ b.exponent) ∨
  (b.significand % 2 = 0 ∧ (b.significand - b.reach) * 2 ^ b.exponent ≤ q ∧
    q ≤ (b.significand + 1 / 2) * 2 ^ b.exponent)

variable {b : Binary} {q : ℚ}

theorem reach_bounds (b : Binary) : 1 / 4 ≤ b.reach ∧ b.reach ≤ 1 / 2 := by
  unfold reach
  split <;> norm_num

theorem Attracts.bounds (h : b.Attracts q) :
    (b.significand - b.reach) * 2 ^ b.exponent ≤ q ∧
      q ≤ (b.significand + 1 / 2) * 2 ^ b.exponent := by
  rcases h with h | ⟨-, h⟩
  · exact ⟨h.1.le, h.2.le⟩
  · exact h

theorem attracts_value (b : Binary) : b.Attracts b.value := by
  have hunit : (0 : ℚ) < 2 ^ b.exponent := by positivity
  have hreach := b.reach_bounds.1
  refine .inl ⟨?_, ?_⟩ <;> unfold value <;> nlinarith

theorem Attracts.roundsTo (h : b.Attracts q) : RoundsTo (q / 2 ^ b.exponent) b.significand := by
  have hunit : (0 : ℚ) < 2 ^ b.exponent := by positivity
  have hreach := b.reach_bounds.2
  unfold RoundsTo
  rw [lt_div_iff₀ hunit, div_lt_iff₀ hunit, le_div_iff₀ hunit, div_le_iff₀ hunit]
  have hlow : (b.significand - 1 / 2 : ℚ) * 2 ^ b.exponent ≤
      (b.significand - b.reach) * 2 ^ b.exponent :=
    mul_le_mul_of_nonneg_right (by linarith) hunit.le
  rcases h with h | ⟨heven, h⟩
  · exact .inl ⟨hlow.trans_lt h.1, h.2⟩
  · exact .inr ⟨heven, hlow.trans h.1, h.2⟩

end Binary

theorem targetExponent_eq (m : ℕ) (e : ℤ) :
    Format.binary64.targetExponent (totalExponent m e) = max (m.log2 + e - 52) (-1074) := by
  show max (((m.log2 + 1 : ℤ) + e) - 53) (-1074) = _
  congr 1
  omega

section Rounding

variable {b : Binary} {q : ℚ} {m : ℕ} {e : ℤ}

theorem targetExponent_ge (m : ℕ) (e : ℤ) :
    -1074 ≤ Format.binary64.targetExponent (totalExponent m e) := by
  rw [targetExponent_eq]
  exact le_max_right _ _

theorem targetExponent_le {k : ℤ} (hk : -1074 ≤ k) (hlow : m * 2 ^ e ≤ q) (hq : q < 2 ^ (53 + k))
    (he : e ≤ Format.binary64.targetExponent (totalExponent m e)) :
    Format.binary64.targetExponent (totalExponent m e) ≤ k := by
  rw [targetExponent_eq] at he ⊢
  rcases Nat.eq_zero_or_pos m with rfl | hm
  · -- nothing is known of the number: the exponent is the least one, or it would have dropped
    rw [Nat.log2_zero] at he ⊢
    push_cast at he ⊢
    omega
  · have hpow : (2 : ℚ) ^ ((m.log2 : ℤ) + e) < 2 ^ (53 + k) := by
      calc (2 : ℚ) ^ ((m.log2 : ℤ) + e) = (2 ^ m.log2 : ℕ) * 2 ^ e := by
            rw [zpow_add₀ two_ne_zero]; push_cast; norm_cast
        _ ≤ m * 2 ^ e := by
            have := Nat.log2_self_le (Nat.ne_of_gt hm)
            gcongr
        _ ≤ q := hlow
        _ < 2 ^ (53 + k) := hq
    have := (zpow_lt_zpow_iff_right₀ one_lt_two).1 hpow
    omega

theorem lt_two_zpow_targetExponent (hhigh : q < (m + 1) * 2 ^ e) :
    q < 2 ^ (53 + Format.binary64.targetExponent (totalExponent m e)) := by
  rw [targetExponent_eq]
  calc q < (m + 1) * 2 ^ e := hhigh
    _ ≤ (2 ^ (m.log2 + 1) : ℕ) * 2 ^ e := by
        have : m + 1 ≤ 2 ^ (m.log2 + 1) := Nat.lt_log2_self
        have : (m + 1 : ℚ) ≤ (2 ^ (m.log2 + 1) : ℕ) := by exact_mod_cast this
        gcongr
    _ = 2 ^ ((m.log2 : ℤ) + 1 + e) := by
        rw [zpow_add₀ two_ne_zero]; push_cast; norm_cast
    _ ≤ 2 ^ (53 + max (m.log2 + e - 52) (-1074 : ℤ)) :=
        zpow_le_zpow_right₀ one_le_two (by omega)

namespace Binary.Attracts

theorem lt_two_zpow (hb : b.IsDouble) (h : b.Attracts q) : q < 2 ^ (53 + b.exponent) := by
  have hshort : (b.significand : ℚ) + 1 ≤ 2 ^ 53 := by exact_mod_cast hb.short
  calc q ≤ (b.significand + 1 / 2) * 2 ^ b.exponent := h.bounds.2
    _ < 2 ^ 53 * 2 ^ b.exponent := by gcongr; linarith
    _ = 2 ^ (53 + b.exponent) := by rw [zpow_add₀ two_ne_zero]; norm_cast

theorem significand_eq (hb : b.IsDouble) (h : b.Attracts q) (hleast : -1074 < b.exponent)
    (hq : q < 2 ^ (52 + b.exponent)) : b.significand = 2 ^ 52 := by
  have hfull : 2 ^ 52 ≤ b.significand := by
    rcases hb.full with hfull | hleast'
    · exact hfull
    · omega
  have hq' : q < 2 ^ 52 * 2 ^ b.exponent :=
    hq.trans_eq (by rw [zpow_add₀ two_ne_zero]; norm_cast)
  have hlt := lt_of_mul_lt_mul_right (h.bounds.1.trans_lt hq') (by positivity)
  have hlt' : (b.significand : ℚ) < 2 ^ 52 + 1 := by linarith [b.reach_bounds.2]
  have : b.significand < 2 ^ 52 + 1 := by exact_mod_cast hlt'
  omega

theorem carry (hb : b.IsDouble) (h : b.Attracts q) {t : ℤ} (hleast : -1074 ≤ t)
    (ht : t < b.exponent) (hq : q < 2 ^ (53 + t)) :
    t = b.exponent - 1 ∧ b.significand = 2 ^ 52 ∧
      RoundsTo (q / 2 ^ (b.exponent - 1)) (2 ^ 53) := by
  have hsignificand : b.significand = 2 ^ 52 :=
    h.significand_eq hb (by omega) (hq.trans_le (zpow_le_zpow_right₀ one_le_two (by omega)))
  have hreach : b.reach = 1 / 4 := if_pos ⟨hsignificand, by omega⟩
  have hlow := h.bounds.1
  rw [hreach, hsignificand] at hlow
  push_cast at hlow
  have hexponent : t = b.exponent - 1 := by
    have hpow : (2 : ℚ) ^ (51 + b.exponent) < 2 ^ (53 + t) := by
      refine lt_of_lt_of_le ?_ (hlow.trans hq.le)
      rw [zpow_add₀ two_ne_zero]
      exact mul_lt_mul_of_pos_right (by norm_num) (by positivity)
    have := (zpow_lt_zpow_iff_right₀ one_lt_two).1 hpow
    omega
  have hunit : (0 : ℚ) < 2 ^ (b.exponent - 1) := by positivity
  have hhalf : (2 : ℚ) ^ b.exponent = 2 * 2 ^ (b.exponent - 1) := by
    rw [← zpow_one_add₀ two_ne_zero, add_sub_cancel]
  have hbelow : q < 2 ^ 53 * 2 ^ (b.exponent - 1) := by
    rw [hexponent, zpow_add₀ two_ne_zero] at hq
    exact hq.trans_eq (by norm_cast)
  refine ⟨hexponent, hsignificand, .inr ⟨rfl, ?_, ?_⟩⟩
  · rw [le_div_iff₀ hunit]
    push_cast
    linarith
  · rw [div_le_iff₀ hunit]
    push_cast
    linarith

/-- The exponent of the first shift is that of the double, but for numbers just below a power of two
that are rounded to it. -/
theorem target (hb : b.IsDouble) (h : b.Attracts q) (hlow : m * 2 ^ e ≤ q)
    (hhigh : q < (m + 1) * 2 ^ e)
    (he : e ≤ Format.binary64.targetExponent (totalExponent m e)) :
    (Format.binary64.targetExponent (totalExponent m e) = b.exponent) ∨
    (Format.binary64.targetExponent (totalExponent m e) = b.exponent - 1 ∧
      b.significand = 2 ^ 52 ∧ RoundsTo (q / 2 ^ (b.exponent - 1)) (2 ^ 53)) := by
  have hle := targetExponent_le hb.least hlow (h.lt_two_zpow hb) he
  rcases hle.eq_or_lt with heq | hlt
  · exact .inl heq
  · exact .inr (h.carry hb (targetExponent_ge m e) hlt (lt_two_zpow_targetExponent hhigh))

end Binary.Attracts

theorem Binary.IsDouble.targetExponent (hb : b.IsDouble) :
    Format.binary64.targetExponent (totalExponent b.significand b.exponent) = b.exponent := by
  have hlog := hb.log2_le
  have hleast := hb.least
  rw [targetExponent_eq]
  rcases hb.full with hfull | hleast'
  · rw [log2_eq hfull hb.short]
    push_cast
    omega
  · omega

theorem Binary.IsDouble.shiftToTargetExponent_eq (hb : b.IsDouble) :
    shiftToTargetExponent Format.binary64 b.significand b.exponent .exact =
      (⟨b.significand, false, false⟩, b.exponent) := by
  rw [shiftToTargetExponent, hb.targetExponent, shiftToExponent]
  simp only [Int.sub_self, Int.toNat_zero, Nat.cast_zero, Int.add_zero]
  rfl

theorem shiftToTargetExponent_carry (he : -1074 ≤ e) :
    shiftToTargetExponent Format.binary64 (2 ^ 53) e .exact = (⟨2 ^ 52, false, false⟩, e + 1) := by
  have htarget : Format.binary64.targetExponent (totalExponent (2 ^ 53) e) = e + 1 := by
    rw [targetExponent_eq, Nat.log2_two_pow]
    push_cast
    omega
  rw [shiftToTargetExponent, htarget, shiftToExponent]
  simp only [add_sub_cancel_left]
  rfl

theorem roundWithAccuracy_of_shift {s : Sign} {accuracy : Accuracy} {em em' : ExtendedMantissa}
    {t t' : ℤ} (hfirst : shiftToTargetExponent Format.binary64 m e accuracy = (em, t))
    (hsecond : shiftToTargetExponent Format.binary64 em.roundedMantissa t .exact = (em', t'))
    (hpos : 0 < em'.mantissa) :
    roundWithAccuracy Format.binary64 s m e accuracy = .finite s em'.mantissa t' hpos := by
  unfold roundWithAccuracy
  simp only [hfirst, hsecond]
  exact dif_neg (Nat.ne_of_gt hpos)

theorem roundWithAccuracy_eq {s : Sign} {accuracy : Accuracy} (hb : b.IsDouble)
    (hpos : 0 < b.significand) (h : b.Attracts q)
    (hx : Represents (.ofMantissaAndAccuracy m accuracy) (q / 2 ^ e))
    (he : e ≤ Format.binary64.targetExponent (totalExponent m e)) :
    roundWithAccuracy Format.binary64 s m e accuracy =
      .finite s b.significand b.exponent hpos := by
  have hunit : (0 : ℚ) < 2 ^ e := by positivity
  have hmantissa : (ExtendedMantissa.ofMantissaAndAccuracy m accuracy).mantissa = m := by
    rcases accuracy with _ | (_ | _ | _) <;> rfl
  have hbounds := hx.bounds
  rw [hmantissa, le_div_iff₀ hunit, div_lt_iff₀ hunit] at hbounds
  have htarget := h.target hb hbounds.1 hbounds.2 he
  have hleast := targetExponent_ge m e
  have hfirst : shiftToTargetExponent Format.binary64 m e accuracy =
      shiftToExponent m e accuracy (Format.binary64.targetExponent (totalExponent m e)) := rfl
  generalize Format.binary64.targetExponent (totalExponent m e) = t at he htarget hleast hfirst
  have hshift : e + ((t - e).toNat : ℤ) = t := by omega
  have hrounds := (hx.shiftRight (t - e).toNat).roundsTo
  rw [div_div, ← zpow_natCast, ← zpow_add₀ two_ne_zero, hshift] at hrounds
  simp only [shiftToExponent, hshift] at hfirst
  -- the second shift does nothing, or takes out a carry through all bits
  rcases htarget with rfl | ⟨rfl, hcarry, hq⟩
  · have hsecond := hb.shiftToTargetExponent_eq
    nth_rewrite 1 [← hrounds.unique h.roundsTo] at hsecond
    exact roundWithAccuracy_of_shift hfirst hsecond hpos
  · have hsecond := shiftToTargetExponent_carry hleast
    rw [← hrounds.unique hq] at hsecond
    rw [roundWithAccuracy_of_shift hfirst hsecond (by decide)]
    simp only [sub_add_cancel, hcarry]

end Rounding

/-! ### Products and quotients -/

section Operations

variable {b : Binary} {s₁ s₂ : Sign} {m₁ m₂ : ℕ} {e₁ e₂ : ℤ} {h₁ : 0 < m₁} {h₂ : 0 < m₂}

theorem represents_exact (m : ℕ) : Represents (.ofMantissaAndAccuracy m .exact) m := rfl

theorem represents_fraction (n d : ℕ) (hd : 0 < d) :
    Represents (.ofMantissaAndAccuracy (n / d) (accuracyOfFraction (n % d) d)) (n / d : ℚ) := by
  have hpos : (0 : ℚ) < d := by exact_mod_cast hd
  have hsplit : (n : ℚ) / d = (n / d : ℕ) + (n % d : ℕ) / d := by
    have : (n : ℚ) = d * (n / d : ℕ) + (n % d : ℕ) := by exact_mod_cast (Nat.div_add_mod n d).symm
    field_simp
    linarith
  have hlt : ((n % d : ℕ) : ℚ) / d < 1 := by
    rw [div_lt_one hpos]
    exact_mod_cast Nat.mod_lt n hd
  rw [hsplit, accuracyOfFraction]
  generalize n % d = r at hlt ⊢
  split
  · rename_i hzero
    rw [hzero]
    simp [ExtendedMantissa.ofMantissaAndAccuracy, Represents]
  · rename_i hzero
    have hr : (0 : ℚ) < r / d := by
      have : (0 : ℚ) < r := by exact_mod_cast Nat.pos_of_ne_zero hzero
      positivity
    -- the residual bits tell whether the remainder is below, at or above half of the divisor
    rcases hcompare : compare (2 * r) d with _ | _ | _
    · have hlt' : 2 * r < d := Nat.compare_eq_lt.1 hcompare
      have hhalf : (r : ℚ) / d < 1 / 2 := by
        rw [div_lt_iff₀ hpos]
        have : (2 * r : ℚ) < d := by exact_mod_cast hlt'
        linarith
      show ((n / d : ℕ) : ℚ) < _ ∧ _ < ((n / d : ℕ) : ℚ) + 1 / 2
      exact ⟨by linarith, by linarith⟩
    · have heq : 2 * r = d := Nat.compare_eq_eq.1 hcompare
      have hhalf : (r : ℚ) / d = 1 / 2 := by
        rw [div_eq_iff (ne_of_gt hpos)]
        have : (2 * r : ℚ) = d := by exact_mod_cast heq
        linarith
      exact congrArg _ hhalf
    · have hgt : d < 2 * r := Nat.compare_eq_gt.1 hcompare
      have hhalf : 1 / 2 < (r : ℚ) / d := by
        rw [lt_div_iff₀ hpos]
        have : (d : ℚ) < 2 * r := by exact_mod_cast hgt
        linarith
      show ((n / d : ℕ) : ℚ) + 1 / 2 < _ ∧ _ < ((n / d : ℕ) : ℚ) + 1
      exact ⟨by linarith, by linarith⟩

theorem mul_eq (hb : b.IsDouble) (hpos : 0 < b.significand)
    (h : b.Attracts (m₁ * 2 ^ e₁ * (m₂ * 2 ^ e₂)))
    (he : e₁ + e₂ ≤ Format.binary64.targetExponent (totalExponent (m₁ * m₂) (e₁ + e₂))) :
    UnpackedFloat.mul Format.binary64 (.finite s₁ m₁ e₁ h₁) (.finite s₂ m₂ e₂ h₂) =
      .finite (s₁ * s₂) b.significand b.exponent hpos := by
  refine roundWithAccuracy_eq hb hpos h ?_ he
  have hexact : (m₁ * 2 ^ e₁ * (m₂ * 2 ^ e₂) : ℚ) / 2 ^ (e₁ + e₂) = (m₁ * m₂ : ℕ) := by
    rw [zpow_add₀ two_ne_zero]
    push_cast
    field_simp
  rw [hexact]
  exact represents_exact _

theorem targetExponent_mono {t t' : ℤ} (h : t ≤ t') :
    Format.binary64.targetExponent t ≤ Format.binary64.targetExponent t' := by
  unfold Format.targetExponent
  omega

theorem log2_div_ge (n d : ℕ) (hn : 0 < n) (hd : 0 < d) :
    (n.log2 : ℤ) - d.log2 - 1 ≤ ((n / d).log2 : ℤ) := by
  by_cases hle : n.log2 < d.log2 + 1
  · omega
  have hbits : 2 ^ (n.log2 - d.log2 - 1) ≤ n / d := by
    rw [Nat.le_div_iff_mul_le hd]
    calc 2 ^ (n.log2 - d.log2 - 1) * d ≤ 2 ^ (n.log2 - d.log2 - 1) * 2 ^ (d.log2 + 1) :=
          Nat.mul_le_mul_left _ (Nat.le_of_lt Nat.lt_log2_self)
      _ = 2 ^ n.log2 := by
          rw [← Nat.pow_add]
          congr 1
          omega
      _ ≤ n := Nat.log2_self_le (Nat.ne_of_gt hn)
  have hpos : n / d ≠ 0 := Nat.ne_of_gt (Nat.lt_of_lt_of_le (Nat.two_pow_pos _) hbits)
  have := (Nat.le_log2 hpos).2 hbits
  omega

theorem log2_mul_two_pow {n : ℕ} (hn : 0 < n) (k : ℕ) : (n * 2 ^ k).log2 = n.log2 + k := by
  rw [Nat.log2_eq_iff (by positivity), Nat.pow_succ, Nat.pow_add]
  refine ⟨Nat.mul_le_mul_right _ (Nat.log2_self_le (Nat.ne_of_gt hn)), ?_⟩
  calc n * 2 ^ k < 2 ^ (n.log2 + 1) * 2 ^ k :=
        Nat.mul_lt_mul_of_pos_right Nat.lt_log2_self (Nat.two_pow_pos k)
    _ = 2 ^ n.log2 * 2 ^ k * 2 := by ring

theorem div_eq (hb : b.IsDouble) (hpos : 0 < b.significand)
    (h : b.Attracts (m₁ * 2 ^ e₁ / (m₂ * 2 ^ e₂))) :
    UnpackedFloat.div Format.binary64 (.finite s₁ m₁ e₁ h₁) (.finite s₂ m₂ e₂ h₂) =
      .finite (s₁ / s₂) b.significand b.exponent hpos := by
  obtain ⟨t, ht⟩ : ∃ t, t = min (e₁ - e₂) (Format.binary64.targetExponent
    (totalExponent m₁ e₁ - totalExponent m₂ e₂)) := ⟨_, rfl⟩
  obtain ⟨k, hk⟩ : ∃ k : ℕ, (k : ℤ) = e₁ - e₂ - t := ⟨(e₁ - e₂ - t).toNat, by omega⟩
  have hcore : divCore Format.binary64 m₁ e₁ m₂ e₂ =
      (m₁ * 2 ^ k / m₂, t, accuracyOfFraction (m₁ * 2 ^ k % m₂) m₂) := by
    simp only [divCore, ← ht, Nat.shiftLeft_eq, ← hk, Int.toNat_natCast]
  have hdiv : UnpackedFloat.div Format.binary64 (.finite s₁ m₁ e₁ h₁) (.finite s₂ m₂ e₂ h₂) =
      roundWithAccuracy Format.binary64 (s₁ / s₂) (m₁ * 2 ^ k / m₂) t
        (accuracyOfFraction (m₁ * 2 ^ k % m₂) m₂) := by
    simp only [UnpackedFloat.div, hcore]
  rw [hdiv]
  refine roundWithAccuracy_eq hb hpos h ?_ ?_
  · have hexact : (m₁ * 2 ^ e₁ / (m₂ * 2 ^ e₂) : ℚ) / 2 ^ t = (m₁ * 2 ^ k : ℕ) / m₂ := by
      have he₁ : e₁ = k + e₂ + t := by omega
      have hm₂ : (m₂ : ℚ) ≠ 0 := by exact_mod_cast Nat.ne_of_gt h₂
      rw [he₁, zpow_add₀ two_ne_zero, zpow_add₀ two_ne_zero, zpow_natCast]
      push_cast
      field_simp
    rw [hexact]
    exact represents_fraction _ _ h₂
  · have hlog := log2_mul_two_pow h₁ k
    have hbits := log2_div_ge (m₁ * 2 ^ k) m₂ (by positivity) h₂
    refine (ht.le.trans (min_le_right _ _)).trans (targetExponent_mono ?_)
    simp only [totalExponent]
    omega

end Operations

end Blockwork.Number
