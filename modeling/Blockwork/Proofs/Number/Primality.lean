import Blockwork.Proofs.Number.Roots

/-! Trial division decides which doubles are prime. It is done on doubles too, with a rounded root as
the limit; there it ends because an odd double is small enough for the divisors to grow. -/

namespace Blockwork.Number

/-! ### Trial division of natural numbers -/

section Naturals

variable {n d l : ℕ}

theorem noDivisorFrom_iff (n d : ℕ) : noDivisorFrom n d = true ↔
    ∀ k, d ≤ k → k * k ≤ n → k % 2 = d % 2 → ¬ k ∣ n := by
  induction d using noDivisorFrom.induct n with
  | case1 d hgt =>
    rw [noDivisorFrom, if_pos hgt]
    refine iff_of_true rfl fun k hk hle _ => ?_
    have := Nat.mul_le_mul hk hk
    omega
  | case2 d hle hdvd =>
    rw [noDivisorFrom, if_neg hle, if_pos hdvd]
    refine iff_of_false Bool.false_ne_true fun h => ?_
    exact h d le_rfl (not_lt.1 hle) rfl (Nat.dvd_of_mod_eq_zero hdvd)
  | case3 d hle hdvd ih =>
    rw [noDivisorFrom, if_neg hle, if_neg hdvd, ih]
    constructor
    · intro h k hk hsquare hparity
      rcases hk.eq_or_lt with rfl | hlt
      · exact fun hk => hdvd (Nat.mod_eq_zero_of_dvd hk)
      · exact h k (by omega) hsquare (by omega)
    · intro h k hk hsquare hparity
      exact h k (by omega) hsquare (by omega)

/-- For an odd number the odd divisors up to any limit from the root on decide. -/
theorem prime_iff_forall_odd (hodd : n % 2 = 1) (hn : 3 ≤ n) (hlow : n.sqrt ≤ l) (hhigh : l < n) :
    n.Prime ↔ ∀ k, 3 ≤ k → k ≤ l → k % 2 = 1 → ¬ k ∣ n := by
  constructor
  · intro hprime k hk hl _ hdvd
    rcases (Nat.dvd_prime hprime).1 hdvd with rfl | rfl <;> omega
  · intro h
    refine Nat.prime_def_le_sqrt.2 ⟨by omega, fun k hk hroot hdvd => ?_⟩
    have hparity : k % 2 = 1 := by
      by_contra heven
      have htwo : 2 ∣ n := (Nat.dvd_of_mod_eq_zero (by omega)).trans hdvd
      omega
    exact h k (by omega) (hroot.trans hlow) hparity hdvd

theorem not_prime_of_even (heven : n % 2 = 0) (hn : n ≠ 2) : ¬ n.Prime := by
  intro hprime
  rcases hprime.eq_two_or_odd with htwo | hodd
  · exact hn htwo
  · omega

theorem isPrimeNat_iff (n : ℕ) : isPrimeNat n = true ↔ n.Prime := by
  have hunfold : isPrimeNat n = true ↔ n = 2 ∨ (2 < n ∧ n % 2 = 1) ∧ noDivisorFrom n 3 = true := by
    simp [isPrimeNat]
  rw [hunfold]
  by_cases htwo : n = 2
  · exact iff_of_true (.inl htwo) (htwo ▸ Nat.prime_two)
  by_cases hodd : 2 < n ∧ n % 2 = 1
  · have hlt : n.sqrt < n := Nat.sqrt_lt_self (by omega)
    rw [prime_iff_forall_odd hodd.2 (by omega) le_rfl hlt, noDivisorFrom_iff]
    simp only [htwo, hodd, and_self, true_and, false_or, Nat.le_sqrt]
  · refine iff_of_false (by simp [htwo, hodd]) fun hprime => ?_
    have hge := hprime.two_le
    exact not_prime_of_even (by omega) htwo hprime

end Naturals

/-! ### Doubles that are prime -/

section Doubles

variable {x y : Float} {q : ℚ} {n : ℕ}

theorem isPrime_iff (x : Float) :
    isPrime x = true ↔ ∃ p : ℕ, p.Prime ∧ value? x = some (p : ℚ) := by
  unfold isPrime
  constructor
  · intro h
    split at h
    · rename_i b hb
      simp only [Bool.and_eq_true, Bool.not_eq_true', isPrimeNat_iff] at h
      obtain ⟨⟨hwhole, hsign⟩, hprime⟩ := h
      refine ⟨b.whole, hprime, ?_⟩
      rw [value?, hb, Option.map_some, Binary.value_of_isWhole hwhole, Binary.signed, hsign]
      rfl
    · cases h
  · rintro ⟨p, hprime, hx⟩
    obtain ⟨b, hb, hvalue, hsign⟩ := exists_of_value?_nat hx
    obtain ⟨hwhole, hp⟩ := Binary.isWhole_of_value hvalue
    have hpositive : b.negative = false := by
      cases hcase : b.negative with
      | false => rfl
      | true => exact absurd (hsign hcase) hprime.ne_zero
    simp only [hb, hwhole, hpositive, hp, (isPrimeNat_iff p).2 hprime, Bool.not_false, Bool.and_self]

theorem isPrime_of_value? (hx : value? x = some (n : ℚ)) : isPrime x = true ↔ n.Prime := by
  rw [isPrime_iff]
  refine ⟨?_, fun hprime => ⟨n, hprime, hx⟩⟩
  rintro ⟨p, hprime, hp⟩
  rw [hx, Option.some_inj, Nat.cast_inj] at hp
  rwa [hp]

theorem exists_nat_of_isWhole (hx : value? x = some q) (hpos : 0 < q) (h : isWhole x = true) :
    ∃ n : ℕ, q = n := by
  rw [value?, Option.map_eq_some_iff] at hx
  obtain ⟨b, hb, hq⟩ := hx
  rw [isWhole, hb, Option.any_some] at h
  have hnonneg := b.value_nonneg
  refine ⟨b.whole, ?_⟩
  rw [Binary.value_of_isWhole h]
  rw [Binary.signed] at hq
  split at hq
  · linarith
  · exact hq.symm

theorem lt_of_odd (hx : value? x = some (n : ℚ)) (hodd : n % 2 = 1) : n < 2 ^ 53 := by
  obtain ⟨b, hb, hvalue, -⟩ := exists_of_value?_nat hx
  have hshort := (isDouble_of_ofFloat? hb).short
  rw [Binary.value] at hvalue
  rcases le_or_gt b.exponent 0 with he | he
  · have hunit : (2 : ℚ) ^ b.exponent ≤ 1 := zpow_le_one_of_nonpos₀ one_le_two he
    have hle : (n : ℚ) ≤ b.significand := by
      rw [← hvalue]
      exact mul_le_of_le_one_right (Nat.cast_nonneg _) hunit
    have : n ≤ b.significand := by exact_mod_cast hle
    omega
  · obtain ⟨k, hk⟩ : ∃ k : ℕ, b.exponent = (k + 1 : ℕ) := ⟨b.exponent.toNat - 1, by omega⟩
    rw [hk, zpow_natCast] at hvalue
    have hn : b.significand * 2 ^ (k + 1) = n := by exact_mod_cast hvalue
    rw [pow_succ, ← mul_assoc] at hn
    omega

end Doubles

/-! ### Trial division of doubles -/

/-- Divides by a number and those after it in steps of two, up to a limit. There is no result if the
rounds do not suffice for the divisors to pass the limit. -/
def divideUpTo (x limit : Float) : ℕ → Float → Option Bool
  | 0, _ => none
  | rounds + 1, divisor =>
    if divisor ≤ limit then
      if remainder x divisor == 0.0 then some false else divideUpTo x limit rounds (divisor + 2.0)
    else some true

/-- Trial division by two and by the odd numbers up to the root, all of them doubles. -/
def trialDivision (rounds : ℕ) (x : Float) : Option Bool :=
  if x == 2.0 || x == 3.0 then some true
  else if !x.isFinite || x ≤ 1.0 || !isWhole x || remainder x 2.0 == 0.0 then some false
  else divideUpTo x (floor x.sqrt) rounds 3.0

section Loop

variable {x limit divisor : Float} {n l d rounds : ℕ}

theorem remainder_beq_zero_iff (hx : value? x = some (n : ℚ)) (hd : value? divisor = some (d : ℚ))
    (hpos : 0 < d) : (remainder x divisor == 0.0) = true ↔ d ∣ n := by
  rw [beq_iff_of_value? (value?_remainder hx hd hpos.ne') value?_zero, Nat.cast_eq_zero,
    Nat.dvd_iff_mod_eq_zero]

theorem divideUpTo_eq (hx : value? x = some (n : ℚ)) (hl : value? limit = some (l : ℚ))
    (hd : value? divisor = some (d : ℚ)) (hpos : 0 < d) (hfits : l + 2 ≤ 2 ^ 53)
    (hrounds : l + 1 - d < rounds) :
    ∃ r, divideUpTo x limit rounds divisor = some r ∧
      (r = true ↔ ∀ k, d ≤ k → k ≤ l → k % 2 = d % 2 → ¬ k ∣ n) := by
  induction rounds generalizing d divisor with
  | zero => exact absurd hrounds (Nat.not_lt_zero _)
  | succ rounds ih =>
    rw [divideUpTo]
    have hwithin : divisor ≤ limit ↔ d ≤ l := by rw [le_iff_of_value? hd hl, Nat.cast_le]
    have hdivides := remainder_beq_zero_iff hx hd hpos
    by_cases hle : d ≤ l
    · rw [if_pos (hwithin.2 hle)]
      by_cases hdvd : d ∣ n
      · rw [if_pos (hdivides.2 hdvd)]
        exact ⟨false, rfl, iff_of_false Bool.false_ne_true fun h => h d le_rfl hle rfl hdvd⟩
      · rw [if_neg (mt hdivides.1 hdvd)]
        have hnext : value? (divisor + 2.0) = some ((d + 2 : ℕ) : ℚ) := by
          have hsum := @value?_add_int divisor 2.0 d 2 (by exact_mod_cast hd)
            (by exact_mod_cast value?_two) (by rw [abs_of_nonneg (by omega)]; omega)
          exact_mod_cast hsum
        obtain ⟨r, hr, hiff⟩ := ih hnext (by omega) (by omega)
        refine ⟨r, hr, hiff.trans ⟨fun h k hk hkl hparity => ?_, fun h k hk hkl hparity => ?_⟩⟩
        · rcases hk.eq_or_lt with rfl | hlt
          · exact hdvd
          · exact h k (by omega) hkl (by omega)
        · exact h k (by omega) hkl (by omega)
    · rw [if_neg (mt hwithin.1 hle)]
      exact ⟨true, rfl, iff_of_true rfl fun k hk hkl => absurd (hk.trans hkl) hle⟩

theorem divideUpTo_of_odd (hx : value? x = some (n : ℚ)) (hodd : n % 2 = 1) (hn : 5 ≤ n)
    (hrounds : 2 ^ 53 ≤ rounds) :
    divideUpTo x (floor x.sqrt) rounds 3.0 = some (isPrime x) := by
  have hlt := lt_of_odd hx hodd
  obtain ⟨b, hb, hsign, hlow, hhigh⟩ := exists_sqrt hx hn hlt
  have hlimit := value?_floor hb hsign
  have hlow' : n.sqrt ≤ ⌊b.value⌋₊ := Nat.le_floor hlow
  have hhigh' : ⌊b.value⌋₊ ≤ n - 1 := Nat.floor_le_of_le hhigh
  have hthree : value? 3.0 = some ((3 : ℕ) : ℚ) := by exact_mod_cast value?_three
  obtain ⟨r, hr, hiff⟩ := divideUpTo_eq hx hlimit hthree (by decide) (by omega)
    (show _ < rounds by omega)
  rw [hr, Option.some_inj, Bool.eq_iff_iff, hiff, isPrime_of_value? hx,
    prime_iff_forall_odd hodd (by omega) hlow' (by omega)]

end Loop

/-- What is refused before the search is no prime, and the rest is odd. -/
theorem refused_or_odd {x : Float} (htwo : value? x ≠ some 2) :
    ((!x.isFinite || x ≤ 1.0 || !isWhole x || remainder x 2.0 == 0.0) = true ∧ isPrime x = false) ∨
    ((!x.isFinite || x ≤ 1.0 || !isWhole x || remainder x 2.0 == 0.0) = false ∧
      ∃ n : ℕ, value? x = some (n : ℚ) ∧ n % 2 = 1 ∧ 1 < n) := by
  have hcomposite : (∀ p : ℕ, value? x = some (p : ℚ) → ¬ p.Prime) → isPrime x = false := by
    intro h
    rw [Bool.eq_false_iff, Ne, isPrime_iff]
    rintro ⟨p, hprime, hx⟩
    exact h p hx hprime
  cases hx : value? x with
  | none =>
    have hinfinite : x.isFinite = false := by rw [Bool.eq_false_iff, Ne, isFinite_iff, hx]; simp
    exact .inl ⟨by simp [hinfinite], hcomposite fun p hp => by simp [hx] at hp⟩
  | some q =>
    have hfinite : x.isFinite = true := by rw [isFinite_iff, hx]; rfl
    have hone := le_iff_of_value? hx value?_one
    by_cases hsmall : q ≤ 1
    · refine .inl ⟨by simp [hone.2 hsmall], hcomposite fun p hp hprime => ?_⟩
      rw [hx, Option.some_inj] at hp
      have hle : (p : ℚ) ≤ 1 := hp ▸ hsmall
      have : p ≤ 1 := by exact_mod_cast hle
      exact absurd hprime.two_le (by omega)
    by_cases hwhole : isWhole x = true
    · obtain ⟨n, rfl⟩ := exists_nat_of_isWhole hx (by linarith) hwhole
      have hlarge : 1 < n := by
        rw [not_le] at hsmall
        exact_mod_cast hsmall
      have hdivides := remainder_beq_zero_iff hx (d := 2) (by exact_mod_cast value?_two) Nat.two_pos
      by_cases heven : 2 ∣ n
      · refine .inl ⟨by simp [hdivides.2 heven], hcomposite fun p hp => ?_⟩
        rw [hx, Option.some_inj, Nat.cast_inj] at hp
        subst hp
        refine not_prime_of_even (Nat.mod_eq_zero_of_dvd heven) ?_
        rintro rfl
        exact htwo (by exact_mod_cast hx)
      · have hodd : (remainder x 2.0 == 0.0) = false := Bool.eq_false_iff.2 (mt hdivides.1 heven)
        exact .inr ⟨by simp [hfinite, mt hone.1 hsmall, hwhole, hodd], n, rfl, by omega, hlarge⟩
    · refine .inl ⟨by simp [hwhole], hcomposite fun p hp _ => hwhole ?_⟩
      obtain ⟨b, hb, hvalue, -⟩ := exists_of_value?_nat hp
      rw [isWhole, hb]
      exact (Binary.isWhole_of_value hvalue).1

theorem trialDivision_eq (x : Float) {rounds : ℕ} (hrounds : 2 ^ 53 ≤ rounds) :
    trialDivision rounds x = some (isPrime x) := by
  have hsmall : (x == 2.0 || x == 3.0) = true ↔ value? x = some 2 ∨ value? x = some 3 := by
    rw [Bool.or_eq_true, beq_iff_value? value?_two, beq_iff_value? value?_three]
  unfold trialDivision
  by_cases h : value? x = some 2 ∨ value? x = some 3
  · have hprime : isPrime x = true := by
      rcases h with hx | hx
      · exact (isPrime_iff x).2 ⟨2, Nat.prime_two, by exact_mod_cast hx⟩
      · exact (isPrime_iff x).2 ⟨3, Nat.prime_three, by exact_mod_cast hx⟩
    rw [if_pos (hsmall.2 h), hprime]
  · rw [if_neg (mt hsmall.1 h)]
    rw [not_or] at h
    rcases refused_or_odd h.1 with ⟨hrefused, hprime⟩ | ⟨hrefused, n, hx, hodd, hn⟩
    · rw [if_pos hrefused, hprime]
    · rw [if_neg (Bool.eq_false_iff.1 hrefused)]
      have hthree : n ≠ 3 := by
        rintro rfl
        exact h.2 (by exact_mod_cast hx)
      exact divideUpTo_of_odd hx hodd (by omega) hrounds

/-- The test for primes is right for every double, and so is trial division on doubles: its rounds come
to an end also where a root is rounded, and numbers so large that adding two leaves them as they are
never get that far. -/
theorem isPrime_correct (x : Float) :
    (∀ spare, trialDivision (2 ^ 53 + spare) x = some (isPrime x)) ∧
    (isPrime x = true ↔ ∃ p : ℕ, p.Prime ∧ value? x = some (p : ℚ)) :=
  ⟨fun spare => trialDivision_eq x (Nat.le_add_right _ spare), isPrime_iff x⟩

end Blockwork.Number
