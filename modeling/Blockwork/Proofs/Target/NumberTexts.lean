import Blockwork.Proofs.Number.Digits
import Blockwork.Proofs.Number.Text
import Blockwork.Value

/-! The texts that the target gives numbers. It writes the fewest digits that read back, in full if
the point is near to them and behind an exponent otherwise; the display text is always in full. -/

namespace Blockwork.Target

open Number

def digitCount (s : ℕ) : ℕ := (Nat.toDigits 10 s).length

/-- A decimal that the target may write for a magnitude: it reads back, no decimal that reads back
has fewer digits, and none with as few digits is nearer. -/
structure IsShortest (b : Binary) (s : ℕ) (p : ℤ) : Prop where
  reads : b.Attracts (s * 10 ^ p)
  fewest : ∀ (s' : ℕ) (p' : ℤ), b.Attracts (s' * 10 ^ p') → digitCount s ≤ digitCount s'
  nearest : ∀ (s' : ℕ) (p' : ℤ), b.Attracts (s' * 10 ^ p') → digitCount s' = digitCount s →
    |s * 10 ^ p - b.value| ≤ |s' * 10 ^ p' - b.value|

/-- Digits and the place of the point in them, which may lie beyond either end. Up to 21 digits in
front of the point and up to six zeros behind it are written in full. -/
def layOut (digits : List Char) (point : ℤ) : List Char :=
  if digits.length ≤ point ∧ point ≤ 21 then
    digits ++ List.replicate (point - digits.length).toNat '0'
  else if 0 < point ∧ point ≤ 21 then
    digits.take point.toNat ++ '.' :: digits.drop point.toNat
  else if -6 < point ∧ point ≤ 0 then
    '0' :: '.' :: (List.replicate (-point).toNat '0' ++ digits)
  else
    digits.take 1 ++ (if digits.length = 1 then [] else '.' :: digits.drop 1) ++
      'e' :: (if point - 1 < 0 then '-' else '+') :: Nat.toDigits 10 (point - 1).natAbs

/-- The texts that the target may give a number. Neither zero has a sign. -/
def IsText (x : Float) (t : String) : Prop :=
  match Binary.ofFloat? x with
  | some b =>
    if b.significand = 0 then t = "0"
    else ∃ s p, IsShortest b s p ∧
      t.toList = (if b.negative then ['-'] else []) ++ layOut (Nat.toDigits 10 s) (digitCount s + p)
  | none => t = if x.isNaN then "NaN" else if x < 0 then "-Infinity" else "Infinity"

/-! ### The place of the point -/

section Point

variable {b : Binary} {s s' : ℕ} {p p' : ℤ}

theorem digitCount_pos (s : ℕ) : 0 < digitCount s := Nat.length_toDigits_pos

theorem digitCount_le_iff {k : ℕ} (hk : 0 < k) : digitCount s ≤ k ↔ s < 10 ^ k :=
  Nat.length_toDigits_le_iff (by decide) hk

theorem lt_ten_zpow (s : ℕ) (p : ℤ) : (s * 10 ^ p : ℚ) < 10 ^ (digitCount s + p) := by
  have hlt : s < 10 ^ digitCount s := (digitCount_le_iff (digitCount_pos s)).1 le_rfl
  have hlt' : (s : ℚ) < 10 ^ digitCount s := by exact_mod_cast hlt
  rw [zpow_add₀ (by norm_num), zpow_natCast]
  exact mul_lt_mul_of_pos_right hlt' (by positivity)

theorem ten_zpow_le (hs : 0 < s) (p : ℤ) : (10 : ℚ) ^ (digitCount s + p - 1) ≤ s * 10 ^ p := by
  obtain ⟨k, hk⟩ : ∃ k, digitCount s = k + 1 := ⟨digitCount s - 1, by have := digitCount_pos s; omega⟩
  have hle : 10 ^ k ≤ s := by
    rcases Nat.eq_zero_or_pos k with rfl | hkpos
    · exact hs
    · by_contra hlt
      have := (digitCount_le_iff hkpos).2 (not_le.1 hlt)
      omega
  have hle' : (10 : ℚ) ^ k ≤ s := by exact_mod_cast hle
  have hexponent : ((digitCount s : ℕ) : ℤ) + p - 1 = k + p := by omega
  rw [hexponent, zpow_add₀ (by norm_num), zpow_natCast]
  exact mul_le_mul_of_nonneg_right hle' (by positivity)

theorem pos_of_attracts (hpos : 0 < b.significand) (h : b.Attracts (s * 10 ^ p)) : 0 < s := by
  rcases Nat.eq_zero_or_pos s with rfl | hs
  · simpa using h.pos hpos
  · exact hs

/-- If two decimals of an interval have their points at different places, a power of ten lies between
them, and one digit suffices. -/
theorem ten_zpow_attracts (hpos : 0 < b.significand) (h : b.Attracts (s * 10 ^ p))
    (h' : b.Attracts (s' * 10 ^ p')) (hlt : digitCount s + p < digitCount s' + p') :
    b.Attracts ((1 : ℕ) * 10 ^ (digitCount s' + p' - 1)) := by
  have hs' := pos_of_attracts hpos h'
  refine h.between h' ?_ ?_
  · rw [Nat.cast_one, one_mul]
    exact (lt_ten_zpow s p).le.trans (zpow_le_zpow_right₀ (by norm_num) (by omega))
  · rw [Nat.cast_one, one_mul]
    exact ten_zpow_le hs' p'

theorem point_le_of_single (hten : 10 ≤ b.significand) (h : b.Attracts (s * 10 ^ p))
    (h' : b.Attracts (s' * 10 ^ p')) (hsingle : digitCount s = 1) :
    digitCount s' + p' ≤ digitCount s + p := by
  by_contra hlt
  have hs' := pos_of_attracts (by omega) h'
  have hratio := h.ratio hten h'
  have hnine : s < 10 ^ 1 := (digitCount_le_iff Nat.one_pos).1 hsingle.le
  have hnine' : (s : ℚ) ≤ 9 := by
    have : s ≤ 9 := by omega
    exact_mod_cast this
  have hunit : (0 : ℚ) < 10 ^ p := by positivity
  have hnext : (10 : ℚ) * 10 ^ p ≤ s' * 10 ^ p' := by
    rw [← zpow_one_add₀ (by norm_num)]
    exact (zpow_le_zpow_right₀ (by norm_num) (by omega)).trans (ten_zpow_le hs' p')
  nlinarith

theorem point_eq (hten : 10 ≤ b.significand) (h : b.Attracts (s * 10 ^ p))
    (h' : b.Attracts (s' * 10 ^ p'))
    (hfewest : ∀ (t : ℕ) (r : ℤ), b.Attracts (t * 10 ^ r) → digitCount s ≤ digitCount t)
    (hcount : digitCount s' = digitCount s) : digitCount s + p = digitCount s' + p' := by
  have hpos : 0 < b.significand := by omega
  have hone : digitCount 1 = 1 := rfl
  have hle : ∀ {t u : ℕ} {r v : ℤ}, digitCount t = digitCount s → digitCount u = digitCount s →
      b.Attracts (t * 10 ^ r) → b.Attracts (u * 10 ^ v) → ¬ digitCount t + r < digitCount u + v := by
    intro t u r v ht hu hr hv hlt
    have hsingle := hfewest _ _ (ten_zpow_attracts hpos hr hv hlt)
    have := digitCount_pos s
    have := point_le_of_single hten hr hv (by omega)
    omega
  have hnot := hle rfl hcount h h'
  have hnot' := hle hcount rfl h' h
  omega

theorem le_point_iff {d : Binary} {j : ℤ} (hb : b.IsDouble) (hpos : 0 < b.significand)
    (hd : d.IsDouble) (hten : 10 ≤ d.significand) (hj : -10000 ≤ j)
    (hpower : d.Attracts ((1 : ℕ) * 10 ^ j)) (hreads : b.Attracts (s * 10 ^ p))
    (hfewest : ∀ (t : ℕ) (r : ℤ), b.Attracts (t * 10 ^ r) → digitCount s ≤ digitCount t) :
    j + 1 ≤ digitCount s + p ↔ d.value ≤ b.value := by
  have hs := pos_of_attracts hpos hreads
  have hone : digitCount 1 = 1 := rfl
  -- the intervals of two doubles lie in their order, so only equal ones need the fewest digits
  rcases lt_trichotomy b.value d.value with hlt | heq | hgt
  · refine iff_of_false (fun hle => ?_) hlt.not_ge
    have hbelow := hreads.le_of_lt hb hd hpower hlt
    have habove : (10 : ℚ) ^ j ≤ s * 10 ^ p :=
      (zpow_le_zpow_right₀ (by norm_num) (by omega)).trans (ten_zpow_le hs p)
    rw [Nat.cast_one, one_mul] at hbelow
    have hsame : (s * 10 ^ p : ℚ) = (1 : ℕ) * 10 ^ j := by
      rw [Nat.cast_one, one_mul]
      exact le_antisymm hbelow habove
    rw [hsame] at hreads
    have hread := unpack_nearest hb hpos hj hreads
    rw [unpack_nearest hd (by omega) hj hpower] at hread
    injection hread with _ hsignificand hexponent
    rw [Binary.value, Binary.value, hsignificand, hexponent] at hlt
    exact hlt.false
  · refine iff_of_true ?_ heq.ge
    obtain ⟨hsignificand, hexponent⟩ := hb.eq_of_value hd heq
    have hpower' : b.Attracts ((1 : ℕ) * 10 ^ j) := by
      unfold Binary.Attracts Binary.reach at hpower ⊢
      rwa [hsignificand, hexponent]
    have hcount : digitCount 1 = digitCount s := by
      have := hfewest 1 j hpower'
      have := digitCount_pos s
      omega
    have hpoint := point_eq (by omega) hreads hpower' hfewest hcount
    omega
  · refine iff_of_true ?_ hgt.le
    have hle := hpower.le_of_lt hd hb hreads hgt
    rw [Nat.cast_one, one_mul] at hle
    have := (zpow_lt_zpow_iff_right₀ (by norm_num : (1 : ℚ) < 10)).1 (hle.trans_lt (lt_ten_zpow s p))
    omega

end Point

/-! ### The digits of the display text -/

section Display

variable {b : Binary} {tie : Rounding.Tie}

theorem shortest_fewest (hb : b.IsDouble) (hpos : 0 < b.significand) (tie : Rounding.Tie) (s : ℕ)
    (p : ℤ) (h : b.Attracts (s * 10 ^ p)) : digitCount (b.shortest tie).digits ≤ digitCount s := by
  obtain ⟨hgreatest, -⟩ := b.shortest_spec hb hpos tie
  obtain ⟨hreads, -⟩ := b.shortest_attracts hb hpos tie
  have hle := hgreatest _ _ h
  by_contra hlt
  have hpower := hgreatest _ _ (ten_zpow_attracts hpos h hreads (by omega))
  have := digitCount_pos s
  omega

/-- The digits of the display text are those of the target, unless a number has only a few bits. -/
theorem isShortest_shortest (hb : b.IsDouble) (hten : 10 ≤ b.significand) (tie : Rounding.Tie) :
    IsShortest b (b.shortest tie).digits (b.shortest tie).exponent := by
  have hpos : 0 < b.significand := by omega
  have hfewest := shortest_fewest hb hpos tie
  obtain ⟨hreads, -⟩ := b.shortest_attracts hb hpos tie
  refine ⟨hreads, hfewest, fun s p h hcount => ?_⟩
  have hpoint := point_eq hten hreads h hfewest hcount
  have hp : p = (b.shortest tie).exponent := by omega
  subst hp
  exact (b.shortest_spec hb hpos tie).2 s h

theorem inFull_eq_layOut {digits : List Char} {point : ℤ} (hne : digits ≠ []) (hlow : -6 < point)
    (hhigh : point ≤ 21) : (display.inFull digits point).toList = layOut digits point := by
  have hlength : 0 < digits.length := List.length_pos_iff.2 hne
  by_cases hsmall : point ≤ 0
  · have hlayout : layOut digits point =
        '0' :: '.' :: (List.replicate (-point).toNat '0' ++ digits) := by
      unfold layOut
      rw [if_neg (by omega), if_neg (by omega), if_pos ⟨hlow, hsmall⟩]
    rw [hlayout, Layout.inFull, if_pos hsmall]
    simp [Layout.zeros]
  · by_cases hwhole : (digits.length : ℤ) ≤ point
    · have hlayout : layOut digits point =
          digits ++ List.replicate (point - digits.length).toNat '0' := if_pos ⟨hwhole, hhigh⟩
      have hdrop : digits.drop point.toNat = [] := List.drop_eq_nil_of_le (by omega)
      have htake : digits.take point.toNat = digits := List.take_of_length_le (by omega)
      have hzeros : point.toNat - digits.length = (point - digits.length).toNat := by omega
      rw [hlayout, Layout.inFull, if_neg hsmall]
      simp only [Layout.zeros, hdrop, htake, hzeros]
      simp [display]
    · have hlayout : layOut digits point =
          digits.take point.toNat ++ '.' :: digits.drop point.toNat := by
        unfold layOut
        rw [if_neg (by omega), if_pos ⟨by omega, hhigh⟩]
      have hdrop : (digits.drop point.toNat).isEmpty = false := by
        rw [Bool.eq_false_iff, Ne, List.isEmpty_iff, List.drop_eq_nil_iff]
        omega
      have hzeros : point.toNat - digits.length = 0 := by omega
      rw [hlayout, Layout.inFull, if_neg hsmall]
      simp only [hdrop, hzeros]
      simp [Layout.zeros]

theorem mem_layOut_of_far {digits : List Char} {point : ℤ} (hne : digits ≠ [])
    (h : ¬ (-6 < point ∧ point ≤ 21)) : 'e' ∈ layOut digits point := by
  have hlength : 0 < digits.length := List.length_pos_iff.2 hne
  unfold layOut
  rw [if_neg (by omega), if_neg (by omega), if_neg (by omega)]
  simp

theorem e_not_mem_magnitude (b : Binary) : 'e' ∉ (display.magnitude b).toList := by
  obtain ⟨whole, fraction, htext, -, hwhole, hfraction⟩ := isNumeral_magnitude b
  rw [htext]
  intro he
  rcases List.mem_append.1 he with he | he
  · exact absurd (hwhole _ he) (by decide)
  · rcases hfraction with rfl | ⟨ds, rfl, hds⟩
    · cases he
    · rcases List.mem_cons.1 he with he | he
      · exact absurd he (by decide)
      · exact absurd (hds _ he) (by decide)

theorem magnitude_eq_layOut (hpos : 0 < b.significand)
    (hlow : -6 < digitCount (b.shortest .up).digits + (b.shortest .up).exponent)
    (hhigh : digitCount (b.shortest .up).digits + (b.shortest .up).exponent ≤ 21) :
    (display.magnitude b).toList = layOut (Nat.toDigits 10 (b.shortest .up).digits)
      (digitCount (b.shortest .up).digits + (b.shortest .up).exponent) := by
  rw [← inFull_eq_layOut Nat.toDigits_ne_nil hlow hhigh, Layout.magnitude, if_neg hpos.ne']
  rfl

end Display

/-! ### Which display texts the target gives -/

theorem ofFloat?_millionth : Binary.ofFloat? 1e-6 = some ⟨false, 4722366482869645, -72⟩ := by
  decide +kernel

theorem ofFloat?_sextillion : Binary.ofFloat? 1e21 = some ⟨false, 7629394531250000, 17⟩ := by
  decide +kernel

/-- The double next to the least number that the target writes in full. -/
def millionth : Binary := ⟨false, 4722366482869645, -72⟩

def sextillion : Binary := ⟨false, 7629394531250000, 17⟩

theorem isDouble_millionth : millionth.IsDouble := isDouble_of_ofFloat? ofFloat?_millionth

theorem isDouble_sextillion : sextillion.IsDouble := isDouble_of_ofFloat? ofFloat?_sextillion

theorem millionth_attracts : millionth.Attracts ((1 : ℕ) * 10 ^ (-6 : ℤ)) := by
  refine .inl ⟨?_, ?_⟩ <;> norm_num [millionth, Binary.reach]

theorem sextillion_attracts : sextillion.Attracts ((1 : ℕ) * 10 ^ (21 : ℤ)) := by
  refine .inl ⟨?_, ?_⟩ <;> norm_num [sextillion, Binary.reach]

section Range

variable {b : Binary} {s : ℕ} {p : ℤ}

theorem point_in_range_iff (hb : b.IsDouble) (hpos : 0 < b.significand)
    (hreads : b.Attracts (s * 10 ^ p))
    (hfewest : ∀ (t : ℕ) (r : ℤ), b.Attracts (t * 10 ^ r) → digitCount s ≤ digitCount t) :
    (-6 < digitCount s + p ∧ digitCount s + p ≤ 21) ↔
      millionth.value ≤ b.value ∧ b.value < sextillion.value := by
  have hlow := le_point_iff hb hpos isDouble_millionth (by decide) (by decide) millionth_attracts
    hreads hfewest
  have hhigh := le_point_iff hb hpos isDouble_sextillion (by decide) (by decide) sextillion_attracts
    hreads hfewest
  rw [← hlow, ← not_le (a := sextillion.value), ← hhigh]
  omega

/-- The display text of a magnitude is one of the target just in the range that the target writes in
full. -/
theorem magnitude_isText_iff (hb : b.IsDouble) (hpos : 0 < b.significand) :
    (∃ s p, IsShortest b s p ∧
      (display.magnitude b).toList = layOut (Nat.toDigits 10 s) (digitCount s + p)) ↔
    millionth.value ≤ b.value ∧ b.value < sextillion.value := by
  constructor
  · rintro ⟨s, p, hshortest, htext⟩
    rw [← point_in_range_iff hb hpos hshortest.reads hshortest.fewest]
    by_contra hfar
    have hdigits : Nat.toDigits 10 s ≠ [] := Nat.toDigits_ne_nil
    have he := mem_layOut_of_far hdigits hfar
    rw [← htext] at he
    exact e_not_mem_magnitude b he
  · intro hrange
    have hfull : 10 ≤ b.significand := by
      have hexponent : -72 ≤ b.exponent := by
        by_contra hlt
        exact absurd (hb.value_lt isDouble_millionth (not_le.1 hlt)) hrange.1.not_gt
      have := hb.full.resolve_right (by omega)
      omega
    obtain ⟨hreads, -⟩ := b.shortest_attracts hb hpos .up
    obtain ⟨hlow, hhigh⟩ :=
      (point_in_range_iff hb hpos hreads (shortest_fewest hb hpos .up)).2 hrange
    exact ⟨_, _, isShortest_shortest hb hfull .up, magnitude_eq_layOut hpos hlow hhigh⟩

end Range

theorem isNaN_or_isInf_of_ofFloat? {x : Float} (h : Binary.ofFloat? x = none) :
    x.isNaN = true ∨ x.isInf = true := by
  have hinfinite : x.isInf = x.toModel.unpack.isInf := rfl
  rw [isNaN_iff, hinfinite]
  rcases value?_eq_none (x := x) (by rw [value?, h]; rfl) with hunpack | ⟨s, hunpack⟩
  · exact .inl hunpack
  · rw [hunpack]
    exact .inr rfl

theorem not_isNaN_of_ofFloat? {x : Float} {b : Binary} (h : Binary.ofFloat? x = some b) :
    x.isNaN = false ∧ x.isInf = false := by
  have hnan : x.isNaN = x.toModel.unpack.isNaN := rfl
  have hinfinite : x.isInf = x.toModel.unpack.isInf := rfl
  rw [hnan, hinfinite]
  rw [Binary.ofFloat?_eq] at h
  rcases hx : x.toModel.unpack with _ | _ | s | ⟨s, m, e, hm⟩ <;> rw [hx] at h <;> cases h <;>
    exact ⟨rfl, rfl⟩

/-- The display text of a number is one that the target gives it, unless the number is as great as the
twenty-first power of ten or, but for zero, less than a millionth: those the target writes with an
exponent. Where two shortest decimals are as near to a number, either is allowed. -/
theorem display_isText_iff (x : Float) : IsText x (Blockwork.Value.number x).display ↔
    x.isNaN = true ∨ x.isInf = true ∨ (x == 0) = true ∨ (1e-6 ≤ x.abs ∧ x.abs < 1e21) := by
  have htext : (Blockwork.Value.number x).display = display.render x := rfl
  have hzero : value? 0 = some 0 := value?_of_zero (s := .positive) rfl
  rw [htext]
  unfold IsText Layout.render
  cases hx : Binary.ofFloat? x with
  | none =>
    have hword : x.isNaN = true ∨ x.isInf = true := isNaN_or_isInf_of_ofFloat? hx
    refine iff_of_true ?_ (hword.imp_right .inl)
    dsimp only
    split
    · rfl
    · split <;> rfl
  | some b =>
    have hvalue : value? x = some b.signed := by rw [value?, hx]; rfl
    obtain ⟨hnan, hinfinite⟩ := not_isNaN_of_ofFloat? hx
    have hbeq := beq_iff_value? (x := x) hzero
    rw [hvalue, Option.some_inj] at hbeq
    dsimp only
    by_cases hsignificand : b.significand = 0
    · refine iff_of_true ?_ (.inr (.inr (.inl (hbeq.2 (Binary.signed_eq_zero hsignificand)))))
      simp [hsignificand, Layout.magnitude, display]
    · have hpos : 0 < b.significand := Nat.pos_of_ne_zero hsignificand
      have hb := isDouble_of_ofFloat? hx
      have hsigned := Binary.signed_ne_zero hpos
      have hmagnitude := value?_abs hvalue
      rw [b.abs_signed] at hmagnitude
      have hmillionth : value? 1e-6 = some millionth.value := by rw [value?, ofFloat?_millionth]; rfl
      have hsextillion : value? 1e21 = some sextillion.value := by
        rw [value?, ofFloat?_sextillion]; rfl
      have hsign : ((if b.negative && (display.zeroSign || b.significand != 0) then "-" else "") ++
          display.magnitude b).toList =
            (if b.negative then ['-'] else []) ++ (display.magnitude b).toList := by
        cases b.negative <;> simp [hsignificand]
      rw [if_neg hsignificand, hnan, hinfinite, hbeq, le_iff_of_value? hmillionth hmagnitude,
        lt_iff_of_value? hmagnitude hsextillion, ← magnitude_isText_iff hb hpos, hsign]
      simp only [Bool.false_eq_true, hsigned, false_or, List.append_cancel_left_eq]

theorem isShortest_sextillion : IsShortest sextillion 1 21 := by
  have hexact : ((1 : ℕ) * 10 ^ (21 : ℤ) : ℚ) = sextillion.value := by
    norm_num [sextillion, Binary.value]
  refine ⟨sextillion_attracts, fun s p _ => digitCount_pos s, fun s p _ _ => ?_⟩
  rw [hexact, sub_self, abs_zero]
  exact abs_nonneg _

/-- The target writes the twenty-first power of ten with an exponent, and the display text does not. -/
theorem sextillion_display_differs :
    IsText 1e21 "1e+21" ∧ ¬ IsText 1e21 (Blockwork.Value.number 1e21).display := by
  have hdisplay : (Blockwork.Value.number 1e21).display = "" ++ display.magnitude sextillion := by
    show display.render 1e21 = _
    rw [Layout.render, ofFloat?_sextillion]
    rfl
  unfold IsText
  rw [ofFloat?_sextillion, hdisplay, String.empty_append]
  refine ⟨⟨1, 21, isShortest_sextillion, rfl⟩, fun htext => ?_⟩
  have hrange := (magnitude_isText_iff isDouble_sextillion (by decide)).1 htext
  exact lt_irrefl _ hrange.2

end Blockwork.Target
