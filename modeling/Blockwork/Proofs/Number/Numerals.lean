import Blockwork.Number.Layout
import Blockwork.Proofs.Json.Lexemes
import Blockwork.Proofs.Number.Shortest

/-! Numbers written out in full: whole digits, and digits behind a point. The text of a finite double
is one, and it is read back as that double. -/

namespace Blockwork.Number

open Float.Model (UnpackedFloat Format)

structure Numeral where
  whole : List Char
  fraction : List Char

namespace Numeral

def chars (n : Numeral) : List Char :=
  n.whole ++ if n.fraction.isEmpty then [] else '.' :: n.fraction

def digits (n : Numeral) : List Char := n.whole ++ n.fraction

def value (n : Numeral) : ℚ := ofDigits n.digits * 10 ^ (-(n.fraction.length : ℤ))

def double (n : Numeral) : Float := nearest (ofDigits n.digits) (-(n.fraction.length : ℤ))

structure IsPlain (n : Numeral) : Prop where
  whole_ne : n.whole ≠ []
  isDigit : ∀ c ∈ n.digits, c.isDigit = true
  alone : n.whole.head? = some '0' → n.whole.length = 1

def ofPoint (wholePoint : Bool) (digits : List Char) (point : ℤ) : Numeral :=
  if point ≤ 0 then ⟨['0'], List.replicate (-point).toNat '0' ++ digits⟩
  else
    ⟨digits.take point.toNat ++ List.replicate (point.toNat - digits.length) '0',
      if (digits.drop point.toNat).isEmpty then (if wholePoint then ['0'] else [])
      else digits.drop point.toNat⟩

section Point

variable {digits : List Char} (wholePoint : Bool) (point : ℤ)

theorem ofDigits_append (a b : List Char) :
    ofDigits (a ++ b) = ofDigits a * 10 ^ b.length + ofDigits b := by
  show Nat.ofDigitChars 10 (a ++ b) 0 = Nat.ofDigitChars 10 a 0 * _ + Nat.ofDigitChars 10 b 0
  rw [Nat.ofDigitChars_append, Nat.ofDigitChars_eq_ofDigitChars_zero, mul_comm]

theorem ofDigits_zeros (k : ℕ) : ofDigits (List.replicate k '0') = 0 := by
  show Nat.ofDigitChars 10 _ 0 = 0
  rw [Nat.ofDigitChars_replicate_zero, Nat.mul_zero]

theorem value_ofPoint (digits : List Char) :
    (ofPoint wholePoint digits point).value = ofDigits digits * 10 ^ (point - digits.length) := by
  unfold value Numeral.digits ofPoint
  split
  · rename_i hpoint
    have hlength : (-(((-point).toNat + digits.length : ℕ) : ℤ)) = point - digits.length := by omega
    have hzero : ofDigits ['0'] = 0 := rfl
    simp only [List.length_append, List.length_replicate, hlength, ofDigits_append, ofDigits_zeros,
      hzero, Nat.zero_mul, Nat.zero_add]
  · rename_i hpoint
    obtain ⟨k, rfl⟩ : ∃ k : ℕ, (k : ℤ) = point := ⟨point.toNat, by omega⟩
    rw [Int.toNat_natCast]
    rcases Nat.lt_or_ge k digits.length with hlt | hle
    · have hdrop : (digits.drop k).isEmpty = false := by
        rw [Bool.eq_false_iff, Ne, List.isEmpty_iff, List.drop_eq_nil_iff]
        omega
      have hnone : k - digits.length = 0 := by omega
      have hlength : (-((digits.length - k : ℕ) : ℤ)) = k - digits.length := by omega
      simp only [hdrop, Bool.false_eq_true, if_false, hnone, List.replicate_zero, List.append_nil,
        List.take_append_drop, List.length_drop, hlength]
    · obtain ⟨j, rfl⟩ := Nat.exists_eq_add_of_le hle
      have hj : ((digits.length + j : ℕ) : ℤ) - digits.length = j := by omega
      have hdrop : digits.drop (digits.length + j) = [] := List.drop_eq_nil_of_le hle
      have hwhole : (ofDigits (digits ++ List.replicate j '0') : ℚ) = ofDigits digits * 10 ^ (j : ℤ) := by
        rw [ofDigits_append, ofDigits_zeros, List.length_replicate, zpow_natCast]
        push_cast
        ring
      simp only [List.take_of_length_le hle, hdrop, List.isEmpty_nil, if_true, hj,
        Nat.add_sub_cancel_left]
      cases wholePoint with
      | false => simpa using hwhole
      | true =>
        rw [if_pos rfl, ofDigits_append]
        have hzero : ofDigits ['0'] = 0 := rfl
        rw [hzero, Nat.add_zero, Nat.cast_mul, hwhole]
        simp

theorem chars_ofPoint (hne : digits ≠ []) (l : Layout) :
    (l.inFull digits point).toList = (ofPoint l.wholePoint digits point).chars := by
  unfold Layout.inFull ofPoint chars Layout.zeros
  split
  · simp [hne]
  · cases h : (digits.drop point.toNat).isEmpty <;> cases l.wholePoint <;> simp [h]

theorem isPlain_ofPoint (hne : digits ≠ []) (hdigit : ∀ c ∈ digits, c.isDigit = true)
    (hhead : digits.head? ≠ some '0') : (ofPoint wholePoint digits point).IsPlain := by
  have hzeros : ∀ k, ∀ c ∈ List.replicate k '0', c.isDigit = true := by
    intro k c hc
    rw [(List.mem_replicate.1 hc).2]
    rfl
  unfold ofPoint
  split
  · refine ⟨by simp, ?_, fun _ => rfl⟩
    intro c hc
    simp only [Numeral.digits, List.cons_append, List.nil_append, List.mem_cons,
      List.mem_append] at hc
    rcases hc with rfl | hc | hc
    · rfl
    · exact hzeros _ c hc
    · exact hdigit c hc
  · rename_i hpoint
    obtain ⟨d, ds, rfl⟩ := List.exists_cons_of_ne_nil hne
    obtain ⟨k, hk⟩ : ∃ k, point.toNat = k + 1 := ⟨point.toNat - 1, by omega⟩
    rw [hk]
    refine ⟨by simp, ?_, fun h => absurd h (by simpa using hhead)⟩
    intro c hc
    simp only [Numeral.digits, List.mem_append] at hc
    rcases hc with (hc | hc) | hc
    · exact hdigit c (List.mem_of_mem_take hc)
    · exact hzeros _ c hc
    · split at hc
      · split at hc
        · exact hzeros 1 c hc
        · cases hc
      · exact hdigit c (List.mem_of_mem_drop hc)

theorem fraction_ofPoint (hne : digits ≠ []) : (ofPoint true digits point).fraction ≠ [] := by
  unfold ofPoint
  split
  · simp [hne]
  · dsimp only
    split
    · simp
    · rename_i h
      simpa using h

theorem length_ofPoint (digits : List Char) :
    min (-1) (point - digits.length) ≤ -((ofPoint wholePoint digits point).fraction.length : ℤ) := by
  unfold ofPoint
  split
  · simp only [List.length_append, List.length_replicate]
    omega
  · dsimp only
    split
    · cases wholePoint <;> simp
    · rw [List.length_drop]
      omega

end Point

section Reading

variable {n : Numeral} (h : n.IsPlain)
include h

theorem IsPlain.whole_isDigit : ∀ c ∈ n.whole, c.isDigit = true := fun c hc =>
  h.isDigit c (List.mem_append_left _ hc)

theorem IsPlain.fraction_isDigit : ∀ c ∈ n.fraction, c.isDigit = true := fun c hc =>
  h.isDigit c (List.mem_append_right _ hc)

theorem IsPlain.mem_chars {c : Char} (hc : c ∈ n.chars) : c.isDigit = true ∨ c = '.' := by
  rcases List.mem_append.1 hc with hc | hc
  · exact .inl (h.whole_isDigit c hc)
  · split at hc
    · cases hc
    · rcases List.mem_cons.1 hc with rfl | hc
      · exact .inr rfl
      · exact .inl (h.fraction_isDigit c hc)

theorem IsPlain.splitPoint_eq : splitPoint n.chars = (n.whole, n.fraction, []) := by
  have hall := h.fraction_isDigit
  have hstop : (if n.fraction.isEmpty then [] else '.' :: n.fraction).takeWhile Char.isDigit = [] ∧
      (if n.fraction.isEmpty then [] else '.' :: n.fraction).dropWhile Char.isDigit =
        if n.fraction.isEmpty then [] else '.' :: n.fraction := by
    split <;> exact ⟨rfl, rfl⟩
  have htake : n.chars.takeWhile Char.isDigit = n.whole := by
    rw [chars, List.takeWhile_append_of_pos h.whole_isDigit, hstop.1, List.append_nil]
  have hdrop : n.chars.dropWhile Char.isDigit =
      if n.fraction.isEmpty then [] else '.' :: n.fraction := by
    rw [chars, List.dropWhile_append_of_pos h.whole_isDigit, hstop.2]
  unfold splitPoint
  simp only [htake, hdrop]
  cases hfraction : n.fraction with
  | nil => rfl
  | cons c cs =>
    rw [hfraction] at hall
    have htake' := List.takeWhile_eq_self_iff.2 hall
    have hdrop' := List.dropWhile_eq_nil_iff.2 hall
    simp [htake', hdrop']

theorem IsPlain.readMagnitude?_eq : readMagnitude? n.chars = some n.double := by
  have hwhole : n.whole.isEmpty = false := by
    rw [Bool.eq_false_iff, Ne, List.isEmpty_iff]
    exact h.whole_ne
  unfold readMagnitude?
  simp only [h.splitPoint_eq, hwhole, Bool.false_and, Bool.false_eq_true, if_false, readExponent?,
    Option.map_some, zero_sub]
  rfl

theorem IsPlain.chars_cons : ∃ c cs, n.chars = c :: cs ∧ c.isDigit = true := by
  obtain ⟨c, cs, hwhole⟩ := List.exists_cons_of_ne_nil h.whole_ne
  refine ⟨c, cs ++ if n.fraction.isEmpty then [] else '.' :: n.fraction, ?_,
    h.whole_isDigit c (by simp [hwhole])⟩
  rw [chars, hwhole]
  rfl

theorem IsPlain.takeSign_chars (negative : Bool) :
    takeSign ((if negative then ['-'] else []) ++ n.chars) = (negative, n.chars) := by
  cases negative with
  | true => rfl
  | false =>
    obtain ⟨c, cs, hchars, hc⟩ := h.chars_cons
    rw [hchars]
    have hminus : c ≠ '-' := by rintro rfl; exact absurd hc (by decide)
    have hplus : c ≠ '+' := by rintro rfl; exact absurd hc (by decide)
    show takeSign (c :: cs) = (false, c :: cs)
    unfold takeSign
    split <;> simp_all

theorem IsPlain.read?_chars (negative : Bool) :
    read? (String.ofList ((if negative then ['-'] else []) ++ n.chars)) =
      some ⟨if negative then -n.double else n.double, negative && n.double.isNaN⟩ := by
  unfold read?
  rw [String.toList_ofList, h.takeSign_chars]
  simp only [h.readMagnitude?_eq, Option.map_some]

end Reading

end Numeral

section Doubles

variable {l : Layout} {x : Float} {b : Binary}

theorem unpack_double {n : Numeral} (hb : b.IsDouble) (hpos : 0 < b.significand)
    (hlength : -10000 ≤ -(n.fraction.length : ℤ)) (h : b.Attracts n.value) :
    n.double.toModel.unpack = .finite .positive b.significand b.exponent hpos := by
  rw [Numeral.double]
  exact unpack_nearest hb hpos hlength h

theorem eq_of_significand_zero (hx : Binary.ofFloat? x = some b) (hzero : b.significand = 0) :
    (if b.negative then -(0 : Float) else 0) = x := by
  rw [Binary.ofFloat?_eq] at hx
  rcases hunpack : x.toModel.unpack with _ | _ | s | ⟨s, m, e, hm⟩ <;> rw [hunpack] at hx <;>
    cases hx
  · refine eq_of_unpack ?_
    rw [hunpack]
    cases s <;> rfl
  · exact absurd hzero (Nat.ne_of_gt hm)

theorem eq_of_attracts (hx : Binary.ofFloat? x = some b) (hpos : 0 < b.significand) {n : Numeral}
    (hlength : -10000 ≤ -(n.fraction.length : ℤ)) (h : b.Attracts n.value) :
    (if b.negative then -n.double else n.double) = x := by
  have hdouble := unpack_double (isDouble_of_ofFloat? hx) hpos hlength h
  refine eq_of_unpack ?_
  rw [unpack_of_ofFloat? hx hpos]
  cases b.negative with
  | false => exact hdouble
  | true =>
    rw [if_pos rfl, unpack_neg, hdouble]
    rfl

theorem Layout.exists_numeral_zero (l : Layout) (hx : Binary.ofFloat? x = some b)
    (hzero : b.significand = 0) :
    ∃ n : Numeral, (if l.wholePoint then "0.0" else "0").toList = n.chars ∧ n.IsPlain ∧
      (l.wholePoint = true → n.fraction ≠ []) ∧
      (if b.negative then -n.double else n.double) = x := by
  refine ⟨⟨['0'], if l.wholePoint then ['0'] else []⟩, ?_, ?_, ?_, ?_⟩
  · cases l.wholePoint <;> rfl
  · cases l.wholePoint <;> exact ⟨by simp, by simp [Numeral.digits], fun _ => rfl⟩
  · intro hpoint
    simp [hpoint]
  · have hdouble : ∀ fraction, fraction = ['0'] ∨ fraction = [] →
        (Numeral.mk ['0'] fraction).double = 0 := by
      rintro _ (rfl | rfl) <;> rfl
    rw [hdouble _ (by cases l.wholePoint <;> simp)]
    exact eq_of_significand_zero hx hzero

theorem Layout.exists_numeral (hl : l.positional = none) (hx : Binary.ofFloat? x = some b) :
    ∃ n : Numeral, (l.magnitude b).toList = n.chars ∧ n.IsPlain ∧
      (l.wholePoint = true → n.fraction ≠ []) ∧
      (if b.negative then -n.double else n.double) = x := by
  unfold Layout.magnitude
  split
  · rename_i hzero
    exact l.exists_numeral_zero hx hzero
  · rename_i hne
    have hpos : 0 < b.significand := Nat.pos_of_ne_zero hne
    obtain ⟨hattracts, hexponent⟩ := b.shortest_attracts (isDouble_of_ofFloat? hx) hpos l.tie
    simp only [hl]
    generalize b.shortest l.tie = d at hattracts hexponent
    have hdigits : d.digits ≠ 0 := by
      intro hzero
      have := hattracts.pos hpos
      simp [hzero] at this
    have hne' := Nat.toDigits_ne_nil (n := d.digits) (b := 10)
    have hhead : (Nat.toDigits 10 d.digits).head? ≠ some '0' := fun h => hdigits (Json.head_toDigits h)
    refine ⟨.ofPoint l.wholePoint (Nat.toDigits 10 d.digits) _, Numeral.chars_ofPoint _ hne' l,
      Numeral.isPlain_ofPoint _ _ hne' (Json.isDigit_toDigits _) hhead, ?_, ?_⟩
    · intro hpoint
      rw [hpoint]
      exact Numeral.fraction_ofPoint _ hne'
    · -- wherever the point is, the value is that of the digits with their exponent
      have hvalue := Numeral.value_ofPoint l.wholePoint
        ((Nat.toDigits 10 d.digits).length + d.exponent) (Nat.toDigits 10 d.digits)
      have hlength := Numeral.length_ofPoint l.wholePoint
        ((Nat.toDigits 10 d.digits).length + d.exponent) (Nat.toDigits 10 d.digits)
      have hofDigits : ofDigits (Nat.toDigits 10 d.digits) = d.digits := Nat.ofDigitChars_ten_toDigits
      rw [add_sub_cancel_left] at hvalue hlength
      rw [hofDigits] at hvalue
      rw [← hvalue] at hattracts
      exact eq_of_attracts hx hpos (by omega) hattracts

end Doubles
end Blockwork.Number
