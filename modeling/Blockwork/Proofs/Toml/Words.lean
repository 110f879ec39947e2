import Blockwork.Proofs.Number.Numerals
import Blockwork.Toml.Print
import Blockwork.Toml.Read

/-! Numbers and truth values are read back from their TOML words. Of a float not even the sign of a
zero is lost. -/

namespace Blockwork.Toml

open Number (Numeral Binary)

/-! ### Digits -/

theorem digitValue?_lt {c : Char} (h : c.isDigit = true) : (digitValue? c).any (· < 10) = true := by
  have hrange : 48 ≤ c.toNat ∧ c.toNat ≤ 57 := by
    simpa [Char.isDigit, Char.le_def, UInt32.le_iff_toNat_le] using h
  unfold digitValue?
  simp only [Char.reduceToNat]
  rw [if_pos (by simpa using hrange)]
  simp only [Option.any_some, decide_eq_true_eq]
  omega

section Digits

variable {digits : List Char} (hdigits : ∀ c ∈ digits, c.isDigit = true)
include hdigits

theorem plainDigits?_go (afterDigit : Bool) (h : digits = [] → afterDigit = true) :
    plainDigits?.go 10 afterDigit digits = some digits := by
  induction digits generalizing afterDigit with
  | nil =>
    rw [h rfl]
    rfl
  | cons c cs ih =>
    have hc := hdigits c List.mem_cons_self
    have hunderscore : c ≠ '_' := by rintro rfl; exact absurd hc (by decide)
    rw [plainDigits?.go, if_neg hunderscore, if_pos (digitValue?_lt hc),
      ih (fun c hc => hdigits c (List.mem_cons_of_mem _ hc)) true fun _ => rfl]
    rfl

theorem plainDigits?_digits (hne : digits ≠ []) : plainDigits? 10 digits = some digits :=
  plainDigits?_go hdigits false fun h => absurd h hne

theorem plainDigits?_point (rest : List Char) : plainDigits? 10 (digits ++ '.' :: rest) = none := by
  have hgo : ∀ afterDigit, plainDigits?.go 10 afterDigit (digits ++ '.' :: rest) = none := by
    induction digits with
    | nil =>
      intro afterDigit
      rw [List.nil_append, plainDigits?.go, if_neg (by decide), if_neg (by decide)]
    | cons c cs ih =>
      intro afterDigit
      have hc := hdigits c List.mem_cons_self
      have hunderscore : c ≠ '_' := by rintro rfl; exact absurd hc (by decide)
      rw [List.cons_append, plainDigits?.go, if_neg hunderscore, if_pos (digitValue?_lt hc),
        ih (fun c hc => hdigits c (List.mem_cons_of_mem _ hc)) true]
      rfl
  exact hgo false

theorem wholeDigits?_digits (hne : digits ≠ []) (halone : digits.head? = some '0' → digits.length = 1) :
    wholeDigits? digits = some digits := by
  unfold wholeDigits?
  rw [plainDigits?_digits hdigits hne]
  show (if (decide (digits.head? = some '0') && decide (digits.length ≠ 1)) = true then none
    else some digits) = some digits
  rw [if_neg]
  intro h
  obtain ⟨hhead, hlength⟩ : digits.head? = some '0' ∧ digits.length ≠ 1 := by simpa using h
  exact hlength (halone hhead)

end Digits

/-! ### Where a word ends -/

def EndsValue : List Char → Prop
  | [] => True
  | c :: _ => c = ',' ∨ c = ']' ∨ c = '\n'

theorem takeWord_append {word rest : List Char} (hword : ∀ c ∈ word, isWordChar c = true)
    (hrest : EndsValue rest) : takeWord (word ++ rest) = (word, rest) := by
  have hstop : rest.takeWhile isWordChar = [] ∧ rest.dropWhile isWordChar = rest := by
    cases rest with
    | nil => exact ⟨rfl, rfl⟩
    | cons c rest => rcases hrest with rfl | rfl | rfl <;> exact ⟨rfl, rfl⟩
  have htake : (word ++ rest).takeWhile isWordChar = word := by
    rw [List.takeWhile_append_of_pos hword, hstop.1, List.append_nil]
  have hdrop : (word ++ rest).dropWhile isWordChar = rest := by
    rw [List.dropWhile_append_of_pos hword, hstop.2]
  unfold takeWord
  simp only [htake, hdrop]
  split
  · rcases hrest with h | h | h <;> cases h
  · rfl

/-- A word stands for a value: it is not empty, the reader takes all of it and gives that value. -/
structure IsWord (word : List Char) (t : Toml) : Prop where
  ne_nil : word ≠ []
  chars : ∀ c ∈ word, isWordChar c = true
  read : readWord? word = some t

/-! ### Numbers -/

def IsNumberChar (c : Char) : Prop := c.isDigit = true ∨ c = '-' ∨ c = '.'

theorem isWordChar_of_number {c : Char} (h : IsNumberChar c) : isWordChar c = true := by
  rcases h with h | rfl | rfl
  · simp [isWordChar, isBareChar, Char.isAlphanum, h]
  · rfl
  · rfl

theorem readWord?_of_number {cs : List Char} (h : ∀ c ∈ cs, IsNumberChar c) :
    readWord? cs = (readInteger? cs <|> readDecimal? cs <|> readSpecial? cs <|>
      (Moment.read? cs).map .moment) := by
  have hletter : ∀ c ∈ cs, c ≠ 't' ∧ c ≠ 'f' ∧ c ≠ 'x' ∧ c ≠ 'o' ∧ c ≠ 'b' := by
    intro c hc
    refine ⟨?_, ?_, ?_, ?_, ?_⟩ <;> rintro rfl <;>
      exact absurd (h _ hc) (by unfold IsNumberChar; decide)
  unfold readWord?
  split
  · exact absurd rfl (hletter 't' (by simp)).1
  · exact absurd rfl (hletter 'f' (by simp)).2.1
  · exact absurd rfl (hletter 'x' (by simp)).2.2.1
  · exact absurd rfl (hletter 'o' (by simp)).2.2.2.1
  · exact absurd rfl (hletter 'b' (by simp)).2.2.2.2
  · rfl

theorem isWord_of_numeral {n : Numeral} (h : n.IsPlain) {negative : Bool} {t : Toml}
    (hread : (readInteger? ((if negative then ['-'] else []) ++ n.chars) <|>
      readDecimal? ((if negative then ['-'] else []) ++ n.chars)) = some t) :
    IsWord ((if negative then ['-'] else []) ++ n.chars) t := by
  have hnumber : ∀ c ∈ (if negative then ['-'] else []) ++ n.chars, IsNumberChar c := by
    intro c hc
    rcases List.mem_append.1 hc with hc | hc
    · split at hc
      · exact .inr (.inl (List.mem_singleton.1 hc))
      · cases hc
    · exact (h.mem_chars hc).imp id .inr
  refine ⟨?_, fun c hc => isWordChar_of_number (hnumber c hc), ?_⟩
  · obtain ⟨c, cs, hchars, -⟩ := h.chars_cons
    simp [hchars]
  · rw [readWord?_of_number hnumber]
    revert hread
    cases readInteger? ((if negative then ['-'] else []) ++ n.chars) with
    | some t' => exact id
    | none =>
      cases readDecimal? ((if negative then ['-'] else []) ++ n.chars) with
      | some t' => exact id
      | none =>
        intro hread
        cases hread

theorem isPlain_toDigits (n : ℕ) : Numeral.IsPlain ⟨Nat.toDigits 10 n, []⟩ := by
  refine ⟨Nat.toDigits_ne_nil, ?_, ?_⟩
  · simpa [Numeral.digits] using Json.isDigit_toDigits n
  · intro hhead
    rw [Json.head_toDigits hhead]
    rfl

theorem toList_intText (n : ℤ) : (intText n).toList =
    (if decide (n < 0) then ['-'] else []) ++ Numeral.chars ⟨Nat.toDigits 10 n.natAbs, []⟩ := by
  cases n with
  | ofNat n =>
    rw [if_neg (by simp)]
    simp [intText, Numeral.chars]
  | negSucc n =>
    rw [if_pos (by simp [Int.negSucc_lt_zero n])]
    simp [intText, Numeral.chars]

theorem readInteger?_toDigits {n : ℤ} (h : isInteger n = true) :
    readInteger? (intText n).toList = some (.integer n) := by
  have hplain := isPlain_toDigits n.natAbs
  have hchars : Numeral.chars ⟨Nat.toDigits 10 n.natAbs, []⟩ = Nat.toDigits 10 n.natAbs :=
    List.append_nil _
  have hdigits : Number.ofDigits (Nat.toDigits 10 n.natAbs) = n.natAbs :=
    Nat.ofDigitChars_ten_toDigits
  have hwhole := wholeDigits?_digits hplain.whole_isDigit hplain.whole_ne hplain.alone
  have hvalue : (if decide (n < 0) = true then -(n.natAbs : ℤ) else n.natAbs) = n := by
    split <;> rename_i hneg <;> rw [decide_eq_true_eq] at hneg <;> omega
  rw [toList_intText]
  unfold readInteger?
  rw [hplain.takeSign_chars]
  simp only [hchars, hwhole, hdigits, Option.bind_eq_bind, Option.bind_some, hvalue, if_pos h]

theorem isWord_intText {n : ℤ} (h : isInteger n = true) :
    IsWord (intText n).toList (.integer n) := by
  have hread := readInteger?_toDigits h
  rw [toList_intText] at hread ⊢
  exact isWord_of_numeral (isPlain_toDigits _) (by rw [hread]; rfl)

section Floats

variable {n : Numeral} (h : n.IsPlain)
include h

theorem readInteger?_chars (hfraction : n.fraction ≠ []) (negative : Bool) :
    readInteger? ((if negative then ['-'] else []) ++ n.chars) = none := by
  have hchars : n.chars = n.whole ++ '.' :: n.fraction := by simp [Numeral.chars, hfraction]
  unfold readInteger?
  rw [h.takeSign_chars]
  unfold wholeDigits?
  simp only [hchars, plainDigits?_point h.whole_isDigit]
  rfl

theorem readDecimal?_chars (hfraction : n.fraction ≠ []) (negative : Bool)
    (hfinite : ((if negative then -n.double else n.double) == 1.0 / 0.0) = false) :
    readDecimal? ((if negative then ['-'] else []) ++ n.chars) =
      some (.float (if negative then -n.double else n.double)) := by
  have hchars : n.chars = n.whole ++ '.' :: n.fraction := by simp [Numeral.chars, hfraction]
  have hmark : ∀ c ∈ n.chars, (!isExponentMark c) = true := by
    intro c hc
    rcases h.mem_chars hc with hdigit | rfl
    · simp only [isExponentMark, Bool.not_eq_true', Bool.or_eq_false_iff, decide_eq_false_iff_not]
      constructor <;> rintro rfl <;> exact absurd hdigit (by decide)
    · rfl
  have hpoint : ∀ c ∈ n.whole, decide (c ≠ '.') = true := by
    intro c hc
    have hdigit := h.whole_isDigit c hc
    rw [decide_eq_true_eq]
    rintro rfl
    exact absurd hdigit (by decide)
  have hmantissa : n.chars.takeWhile (fun c => !isExponentMark c) = n.chars := by
    rw [List.takeWhile_eq_self_iff]
    exact hmark
  have hexponent : n.chars.dropWhile (fun c => !isExponentMark c) = [] := by
    rw [List.dropWhile_eq_nil_iff]
    exact hmark
  have hwhole : n.chars.takeWhile (· ≠ '.') = n.whole := by
    rw [hchars, List.takeWhile_append_of_pos hpoint]
    simp
  have hrest : n.chars.dropWhile (· ≠ '.') = '.' :: n.fraction := by
    rw [hchars, List.dropWhile_append_of_pos hpoint]
    simp
  have htext : (if negative then ['-'] else []) ++ n.whole ++
      (if n.fraction.isEmpty then [] else '.' :: n.fraction) ++ [] =
        (if negative then ['-'] else []) ++ n.chars := by
    simp [Numeral.chars]
  have hempty : n.fraction.isEmpty = false := by simpa using hfraction
  unfold readDecimal?
  rw [h.takeSign_chars]
  simp only [hmantissa, hexponent, hwhole, hrest, exponentText?, fractionDigits?,
    wholeDigits?_digits h.whole_isDigit h.whole_ne h.alone,
    plainDigits?_digits h.fraction_isDigit hfraction, Option.bind_eq_bind, Option.bind_some, htext,
    h.read?_chars]
  rw [hempty, hfinite]
  rfl

end Floats

theorem unpack_infinity : (1.0 / 0.0 : Float).toModel.unpack = .infinity .positive := rfl

theorem beq_infinity_of_finite {x : Float} {b : Binary} (hb : Binary.ofFloat? x = some b) :
    (x == 1.0 / 0.0) = false := by
  rw [Binary.ofFloat?_eq] at hb
  rw [Bool.eq_false_iff, Ne, Number.beq_iff, unpack_infinity]
  rcases hx : x.toModel.unpack with _ | _ | s | ⟨s, m, e, hm⟩ <;> rw [hx] at hb <;> cases hb
  · simp [Float.Model.UnpackedFloat.compare]
  · cases s <;> simp [Float.Model.UnpackedFloat.compare]

theorem isWord_float (x : Float) : IsWord (floatLayout.render x).toList (.float x) := by
  unfold Number.Layout.render
  split
  · rename_i b hb
    obtain ⟨n, hchars, hplain, hfraction, hdouble⟩ :=
      Number.Layout.exists_numeral (l := floatLayout) rfl hb
    have hfraction := hfraction rfl
    have hfinite := beq_infinity_of_finite hb
    rw [← hdouble] at hfinite
    have hzero : floatLayout.zeroSign = true := rfl
    have htext : ((if (b.negative && (floatLayout.zeroSign || b.significand != 0)) = true then "-"
        else "") ++ floatLayout.magnitude b).toList =
          (if b.negative then ['-'] else []) ++ n.chars := by
      rw [String.toList_append, hchars, hzero, Bool.true_or, Bool.and_true]
      cases b.negative <;> rfl
    rw [htext]
    refine isWord_of_numeral hplain ?_
    rw [readInteger?_chars hplain hfraction, readDecimal?_chars hplain hfraction _ hfinite, hdouble]
    rfl
  · rename_i hnone
    rw [Binary.ofFloat?_eq] at hnone
    rcases hx : x.toModel.unpack with s | _ | s | ⟨s, m, e, hm⟩ <;> rw [hx] at hnone
    · have hnan : ¬ x.isNaN = true := by
        rw [Number.isNaN_iff, hx]
        simp
      rw [if_neg hnan]
      cases s with
      | positive =>
        have hx' : x = 1.0 / 0.0 := Number.eq_of_unpack hx
        rw [hx']
        exact ⟨by decide, List.all_eq_true.1 rfl, rfl⟩
      | negative =>
        have hx' : x = -1.0 / 0.0 := Number.eq_of_unpack hx
        rw [hx']
        exact ⟨by decide, List.all_eq_true.1 rfl, rfl⟩
    · have hx' : x = 0.0 / 0.0 := Number.eq_of_unpack hx
      rw [hx']
      exact ⟨by decide, List.all_eq_true.1 rfl, rfl⟩
    · cases hnone
    · cases hnone

theorem isWord_boolean (b : Bool) :
    IsWord (if b then "true" else "false").toList (.boolean b) := by
  cases b <;> exact ⟨by decide, List.all_eq_true.1 rfl, rfl⟩

end Blockwork.Toml
