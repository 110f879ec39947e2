import Blockwork.Number.Shortest
import Blockwork.Proofs.Number.Scientific

/-! The shortest digits of a double lie in its interval, and so they read back. -/

namespace Blockwork.Number

section Shortest

variable {b : Binary} {p : ℤ} {n : ℕ}

theorem zpow_eq_div {c : ℚ} (hc : c ≠ 0) (j : ℤ) : c ^ j = c ^ j.toNat / c ^ (-j).toNat := by
  rw [← zpow_natCast, ← zpow_natCast, ← zpow_sub₀ hc]
  congr 1
  omega

namespace Rounding

def common (e p : ℤ) : ℚ := 2 ^ (2 - e).toNat * 10 ^ (-p).toNat

theorem common_pos (e p : ℤ) : 0 < common e p := by
  unfold common
  positivity

theorem quarters_eq (e p : ℤ) (a : ℕ) :
    ((a * 2 ^ (e - 2).toNat * 10 ^ (-p).toNat : ℕ) : ℚ) = a / 4 * 2 ^ e * common e p := by
  have htwo : (2 : ℚ) ^ e = 4 * (2 ^ (e - 2).toNat / 2 ^ (2 - e).toNat) := by
    have := zpow_eq_div (two_ne_zero (α := ℚ)) (e - 2)
    rw [neg_sub] at this
    rw [← this, zpow_sub₀ two_ne_zero, zpow_ofNat]
    ring
  rw [htwo, common]
  push_cast
  field_simp

theorem multiple_eq (e p : ℤ) (n : ℕ) :
    ((n * (2 ^ (2 - e).toNat * 10 ^ p.toNat) : ℕ) : ℚ) = n * 10 ^ p * common e p := by
  rw [zpow_eq_div (show (10 : ℚ) ≠ 0 by norm_num) p, common]
  push_cast
  field_simp

theorem quarters_le_iff (e p : ℤ) (a n : ℕ) :
    a * 2 ^ (e - 2).toNat * 10 ^ (-p).toNat ≤ n * (2 ^ (2 - e).toNat * 10 ^ p.toNat) ↔
      (a / 4 * 2 ^ e : ℚ) ≤ n * 10 ^ p := by
  rw [← Nat.cast_le (α := ℚ), quarters_eq, multiple_eq, mul_le_mul_iff_of_pos_right (common_pos e p)]

theorem le_quarters_iff (e p : ℤ) (a n : ℕ) :
    n * (2 ^ (2 - e).toNat * 10 ^ p.toNat) ≤ a * 2 ^ (e - 2).toNat * 10 ^ (-p).toNat ↔
      (n * 10 ^ p : ℚ) ≤ a / 4 * 2 ^ e := by
  rw [← Nat.cast_le (α := ℚ), quarters_eq, multiple_eq, mul_le_mul_iff_of_pos_right (common_pos e p)]

theorem low_eq (hpos : 0 < b.significand) : ∃ a : ℕ, (a / 4 : ℚ) = b.significand - b.reach ∧
    ((ofBinary b).inUnits p).low = a * 2 ^ (b.exponent - 2).toNat * 10 ^ (-p).toNat := by
  refine ⟨_, ?_, rfl⟩
  rw [Binary.reach]
  have hone : 1 ≤ 4 * b.significand := by omega
  have htwo : 2 ≤ 4 * b.significand := by omega
  by_cases h : b.significand = 2 ^ 52 ∧ -1074 < b.exponent
  · have hnear : (decide (b.significand = Nat.pow 2 52) && decide (b.exponent > -1074)) = true := by
      simpa using h
    rw [if_pos h, if_pos hnear, Nat.cast_sub hone]
    push_cast
    ring
  · have hnear : ¬ (decide (b.significand = Nat.pow 2 52) && decide (b.exponent > -1074)) = true := by
      simpa using h
    rw [if_neg h, if_neg hnear, Nat.cast_sub htwo]
    push_cast
    ring

theorem contains_iff (hpos : 0 < b.significand) :
    ((ofBinary b).inUnits p).contains n = true ↔ b.Attracts (n * 10 ^ p) := by
  obtain ⟨a, ha, hlow⟩ := low_eq (p := p) hpos
  have hhigh : ((ofBinary b).inUnits p).high =
    (4 * b.significand + 2) * 2 ^ (b.exponent - 2).toNat * 10 ^ (-p).toNat := rfl
  have hdenominator : ((ofBinary b).inUnits p).denominator =
    2 ^ (2 - b.exponent).toNat * 10 ^ p.toNat := rfl
  have hclosed : ((ofBinary b).inUnits p).closed = decide (b.significand % 2 = 0) := rfl
  have hend : ((4 * b.significand + 2 : ℕ) / 4 : ℚ) = b.significand + 1 / 2 := by
    push_cast
    ring
  have hbelow := quarters_le_iff b.exponent p a n
  have habove := le_quarters_iff b.exponent p (4 * b.significand + 2) n
  have hbelow' := not_congr (le_quarters_iff b.exponent p a n)
  have habove' := not_congr (quarters_le_iff b.exponent p (4 * b.significand + 2) n)
  rw [ha] at hbelow hbelow'
  rw [hend] at habove habove'
  rw [not_le, not_le] at hbelow' habove'
  unfold contains Binary.Attracts
  rw [hlow, hhigh, hdenominator, hclosed]
  by_cases heven : b.significand % 2 = 0
  · simp only [heven, decide_true, if_true, Bool.and_eq_true, decide_eq_true_eq, hbelow, habove,
      true_and]
    exact ⟨.inr, fun h => h.elim (fun h => ⟨h.1.le, h.2.le⟩) id⟩
  · simp only [heven, decide_false, Bool.false_eq_true, if_false, Bool.and_eq_true,
      decide_eq_true_eq, hbelow', habove', false_and, or_false]

theorem contains_of_nearest? {r : Rounding} {tie : Tie} (h : r.nearest? tie = some n) :
    r.contains n = true := by
  unfold nearest? at h
  dsimp only at h
  generalize r.value / r.denominator = below at h
  cases hbelow : r.contains below <;> cases habove : r.contains (below + 1) <;>
    simp only [hbelow, habove] at h
  · cases h
  · exact Option.some.inj h ▸ habove
  · exact Option.some.inj h ▸ hbelow
  · have hcases : n = below ∨ n = below + 1 := by grind
    rcases hcases with rfl | rfl
    · exact hbelow
    · exact habove

theorem value_eq (b : Binary) (p : ℤ) :
    (((ofBinary b).inUnits p).value : ℚ) = b.value * common b.exponent p := by
  have hquarters := quarters_eq b.exponent p (4 * b.significand)
  push_cast at hquarters
  rw [mul_div_cancel_left₀ _ (four_ne_zero)] at hquarters
  rw [Binary.value, ← hquarters]
  show ((4 * b.significand * 2 ^ (b.exponent - 2).toNat * 10 ^ (-p).toNat : ℕ) : ℚ) = _
  push_cast
  rfl

theorem denominator_eq (b : Binary) (p : ℤ) :
    (((ofBinary b).inUnits p).denominator : ℚ) = 10 ^ p * common b.exponent p := by
  have hmultiple := multiple_eq b.exponent p 1
  rw [Nat.one_mul, Nat.cast_one, one_mul] at hmultiple
  exact hmultiple

theorem denominator_pos (b : Binary) (p : ℤ) : 0 < ((ofBinary b).inUnits p).denominator := by
  have hcommon := common_pos b.exponent p
  have hpos : (0 : ℚ) < ((ofBinary b).inUnits p).denominator := by
    rw [denominator_eq]
    positivity
  exact_mod_cast hpos

def below (b : Binary) (p : ℤ) : ℕ :=
  ((ofBinary b).inUnits p).value / ((ofBinary b).inUnits p).denominator

theorem rest_eq (b : Binary) (p : ℤ) :
    ((((ofBinary b).inUnits p).value % ((ofBinary b).inUnits p).denominator : ℕ) : ℚ) =
      (b.value - below b p * 10 ^ p) * common b.exponent p := by
  have hsplit : (((ofBinary b).inUnits p).value : ℚ) =
      below b p * ((ofBinary b).inUnits p).denominator +
        (((ofBinary b).inUnits p).value % ((ofBinary b).inUnits p).denominator : ℕ) := by
    exact_mod_cast (Nat.div_add_mod' _ _).symm
  rw [value_eq, denominator_eq] at hsplit
  linarith

theorem below_le (b : Binary) (p : ℤ) : (below b p * 10 ^ p : ℚ) ≤ b.value := by
  have hnonneg : (0 : ℚ) ≤ (b.value - below b p * 10 ^ p) * common b.exponent p := by
    rw [← rest_eq]
    positivity
  linarith [nonneg_of_mul_nonneg_left hnonneg (common_pos b.exponent p)]

theorem lt_below_succ (b : Binary) (p : ℤ) : b.value < (below b p + 1 : ℕ) * 10 ^ p := by
  have hlt : (_ : ℚ) < ((ofBinary b).inUnits p).denominator :=
    Nat.cast_lt.2 (Nat.mod_lt ((ofBinary b).inUnits p).value (denominator_pos b p))
  rw [rest_eq, denominator_eq, mul_lt_mul_iff_of_pos_right (common_pos b.exponent p)] at hlt
  push_cast
  linarith

/-- Steps of at most a quarter of the last place do not pass over the interval. -/
theorem nearest?_isSome (hpos : 0 < b.significand) (hp : (10 : ℚ) ^ p ≤ 2 ^ (b.exponent - 2))
    (tie : Tie) : (((ofBinary b).inUnits p).nearest? tie).isSome = true := by
  have hcontains : ((ofBinary b).inUnits p).contains (below b p) = true := by
    rw [contains_iff hpos]
    have hunit : (0 : ℚ) < 2 ^ b.exponent := by positivity
    have hquarter : (2 : ℚ) ^ (b.exponent - 2) = 1 / 4 * 2 ^ b.exponent := by
      rw [zpow_sub₀ two_ne_zero, zpow_ofNat]
      ring
    have hreach := b.reach_bounds.1
    have hlow := below_le b p
    have hhigh := lt_below_succ b p
    unfold Binary.value at hlow hhigh
    push_cast at hhigh
    refine .inl ⟨?_, ?_⟩ <;> nlinarith
  unfold nearest?
  rw [below] at hcontains
  simp only [hcontains]
  cases ((ofBinary b).inUnits p).contains
    (((ofBinary b).inUnits p).value / ((ofBinary b).inUnits p).denominator + 1)
  · rfl
  · dsimp only
    repeat' split
    all_goals rfl

theorem search_first {r : Rounding} {tie : Tie} {fuel k : ℕ} (hk : k < fuel)
    (h : ((r.inUnits (p - k)).nearest? tie).isSome = true) :
    ∃ j ≤ k, (r.search tie fuel p).exponent = p - j ∧
      (r.inUnits (p - j)).nearest? tie = some (r.search tie fuel p).digits ∧
      ∀ i < j, (r.inUnits (p - i)).nearest? tie = none := by
  induction fuel generalizing p k with
  | zero => omega
  | succ fuel ih =>
    rw [search]
    cases hnearest : (r.inUnits p).nearest? tie with
    | some digits =>
      exact ⟨0, Nat.zero_le k, by simp, by simpa using hnearest, fun i hi => absurd hi i.not_lt_zero⟩
    | none =>
      cases k with
      | zero =>
        rw [Nat.cast_zero, sub_zero, hnearest] at h
        cases h
      | succ k =>
        have hstep : ∀ i : ℕ, p - ((i + 1 : ℕ) : ℤ) = p - 1 - i := by
          intro i
          push_cast
          ring
        rw [hstep] at h
        obtain ⟨j, hj, hexponent, hdigits, hnone⟩ := ih (Nat.lt_of_succ_lt_succ hk) h
        refine ⟨j + 1, Nat.succ_le_succ hj, ?_, ?_, ?_⟩
        · rw [hstep]
          exact hexponent
        · rw [hstep]
          exact hdigits
        · intro i hi
          cases i with
          | zero => simpa using hnearest
          | succ i =>
            rw [hstep]
            exact hnone i (by omega)

end Rounding

/-- The search for the shortest decimal starts above the double and ends in time: the last power of ten
that it could try is finer than the interval. -/
theorem Binary.shortest_first (hb : b.IsDouble) (hpos : 0 < b.significand) (tie : Rounding.Tie) :
    ∃ (above : ℤ) (j : ℕ), (2 : ℚ) ^ (b.significand.log2 + 1 + b.exponent : ℤ) ≤ 10 ^ above ∧
      -400 ≤ above - j ∧ (b.shortest tie).exponent = above - j ∧
      ((Rounding.ofBinary b).inUnits (above - j)).nearest? tie = some (b.shortest tie).digits ∧
      ∀ i < j, ((Rounding.ofBinary b).inUnits (above - i)).nearest? tie = none := by
  have hlog := hb.log2_le
  have hleast := hb.least
  have hgreatest := hb.greatest
  obtain ⟨above, habove⟩ : ∃ above : ℤ,
    above = (b.significand.log2 + 1 + b.exponent) * 30103 / 100000 + 2 := ⟨_, rfl⟩
  have hsearch : b.shortest tie = (Rounding.ofBinary b).search tie 40 above := by
    rw [habove]
    rfl
  have hcoarse : (2 : ℚ) ^ (b.significand.log2 + 1 + b.exponent : ℤ) ≤ 10 ^ above :=
    two_zpow_le_ten_zpow (by omega) (by omega)
  have hfine : (10 : ℚ) ^ (above - (39 : ℕ)) ≤ 2 ^ (b.exponent - 2) :=
    ten_zpow_le_two_zpow (by omega) (by omega)
  obtain ⟨j, hj, hfirst⟩ := Rounding.search_first (show 39 < 40 by decide)
    (Rounding.nearest?_isSome hpos hfine tie)
  rw [← hsearch] at hfirst
  exact ⟨above, j, hcoarse, by omega, hfirst⟩

theorem Binary.shortest_attracts (hb : b.IsDouble) (hpos : 0 < b.significand)
    (tie : Rounding.Tie) :
    b.Attracts ((b.shortest tie).digits * 10 ^ (b.shortest tie).exponent) ∧
      -400 ≤ (b.shortest tie).exponent := by
  obtain ⟨above, j, -, hleast, hexponent, hdigits, -⟩ := Binary.shortest_first hb hpos tie
  rw [hexponent]
  exact ⟨(Rounding.contains_iff hpos).1 (Rounding.contains_of_nearest? hdigits), hleast⟩

end Shortest

end Blockwork.Number
