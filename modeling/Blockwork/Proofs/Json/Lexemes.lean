import Blockwork.Json.Token
import Blockwork.Proofs.Text.Quoted

/-! The lexemes of written values. A mark, a word, a whole number of 64 bits and a quoted text are
each scanned as one lexeme, up to the mark behind them. -/

namespace Blockwork.Json

theorem lex_cons (offset : Nat) {c : Char} (hc : isSpace c = false) (rest : List Char) :
    lex offset (c :: rest) = (TokenScan.read offset c rest).token ::
      lex (TokenScan.read offset c rest).token.stop (TokenScan.read offset c rest).rest := by
  rw [lex, if_neg (by simp [hc])]

theorem lex_mark {c : Char} {lexeme : Lexeme} (hc : isSpace c = false)
    (hread : ∀ start rest, TokenScan.read start c rest = TokenScan.ofMark start lexeme rest)
    (offset : Nat) (rest : List Char) :
    lex offset (c :: rest) = ⟨offset, offset + 1, lexeme⟩ :: lex (offset + 1) rest := by
  rw [lex_cons offset hc, hread]
  rfl

def EndsValue : List Char → Prop
  | [] => True
  | c :: _ => c = ',' ∨ c = ']' ∨ c = '\x7d'

theorem lex_null (offset : Nat) (rest : List Char) :
    lex offset ("null".toList ++ rest) =
      ⟨offset, offset + 4, .scalar (.ok .null)⟩ :: lex (offset + 4) rest := by
  show lex offset ('n' :: 'u' :: 'l' :: 'l' :: rest) = _
  rw [lex_cons offset rfl]
  rfl

theorem lex_bool (b : Bool) (offset : Nat) (rest : List Char) :
    ∃ stop, lex offset ((if b then "true" else "false").toList ++ rest) =
      ⟨offset, stop, .scalar (.ok (.bool b))⟩ :: lex stop rest := by
  cases b with
  | true =>
    refine ⟨offset + 4, ?_⟩
    show lex offset ('t' :: 'r' :: 'u' :: 'e' :: rest) = _
    rw [lex_cons offset rfl]
    rfl
  | false =>
    refine ⟨offset + 5, ?_⟩
    show lex offset ('f' :: 'a' :: 'l' :: 's' :: 'e' :: rest) = _
    rw [lex_cons offset rfl]
    rfl

/-! ### Numbers -/

theorem le_ofDigitChars (digits : List Char) (n : Nat) : n ≤ Nat.ofDigitChars 10 digits n := by
  induction digits generalizing n with
  | nil => exact Nat.le_refl n
  | cons d ds ih =>
    have hnext := ih (10 * n + (d.toNat - '0'.toNat))
    have hcons : Nat.ofDigitChars 10 (d :: ds) n =
        Nat.ofDigitChars 10 ds (10 * n + (d.toNat - '0'.toNat)) := rfl
    omega

theorem takeDigits_eq (digits : List Char) (n : Nat)
    (h : Nat.ofDigitChars 10 digits n ≤ significandLimit) :
    takeDigits n digits = (Nat.ofDigitChars 10 digits n, []) := by
  induction digits generalizing n with
  | nil => rfl
  | cons d ds ih =>
    have hcons : Nat.ofDigitChars 10 (d :: ds) n =
        Nat.ofDigitChars 10 ds (10 * n + (d.toNat - '0'.toNat)) := rfl
    rw [hcons] at h ⊢
    rw [takeDigits, if_pos (Nat.le_trans (le_ofDigitChars ds _) h), ih _ h]

theorem takeDigits_toDigits {n : Nat} (h : n ≤ significandLimit) :
    takeDigits 0 (Nat.toDigits 10 n) = (n, []) := by
  have hvalue : Nat.ofDigitChars 10 (Nat.toDigits 10 n) 0 = n :=
    Nat.ofDigitChars_toDigits (by decide) (by decide)
  rw [takeDigits_eq _ _ (by rwa [hvalue]), hvalue]

theorem head_toDigits {n : Nat} (h : (Nat.toDigits 10 n).head? = some '0') : n = 0 := by
  induction n using Nat.strongRecOn with
  | ind n ih =>
    by_cases hn : n < 10
    · rw [Nat.toDigits_of_lt_base hn] at h
      have hzero : ∀ k < 10, Nat.digitChar k = '0' → k = 0 := by decide
      exact hzero n hn (Option.some.inj h)
    · -- A longer number begins with the same digit as the number without its last one.
      have hhead : (Nat.toDigits 10 (n / 10)).head? = some '0' := by
        obtain ⟨d, ds, hdigits⟩ := List.exists_cons_of_ne_nil
          (Nat.toDigits_ne_nil (n := n / 10) (b := 10))
        rw [Nat.toDigits_of_base_le (by decide) (by omega), hdigits] at h
        rwa [hdigits]
      have := ih (n / 10) (by omega) hhead
      omega

theorem isDigit_toDigits (n : Nat) : ∀ c ∈ Nat.toDigits 10 n, c.isDigit = true := fun _ hc =>
  Nat.isDigit_of_mem_toDigits (by decide) (by decide) hc

theorem scanFraction_of_ends (p : NumberParts) (offset : Nat) {rest : List Char}
    (hrest : EndsValue rest) : scanFraction p offset rest = .closed (p.value offset) offset rest := by
  cases rest with
  | nil => rfl
  | cons c rest => rcases hrest with rfl | rfl | rfl <;> rfl

theorem scanWhole_toDigits (negative : Bool) (offset n : Nat) {rest : List Char}
    (hrest : EndsValue rest) :
    ∃ stop, scanWhole negative offset (Nat.toDigits 10 n ++ rest) =
      .closed (NumberParts.value ⟨negative, Nat.toDigits 10 n, [], false, []⟩ stop) stop rest := by
  have hdigits := isDigit_toDigits n
  have hstop : rest.takeWhile Char.isDigit = [] ∧ rest.dropWhile Char.isDigit = rest := by
    cases rest with
    | nil => exact ⟨rfl, rfl⟩
    | cons c rest => rcases hrest with rfl | rfl | rfl <;> exact ⟨rfl, rfl⟩
  have htake : (Nat.toDigits 10 n ++ rest).takeWhile Char.isDigit = Nat.toDigits 10 n := by
    rw [List.takeWhile_append_of_pos hdigits, hstop.1, List.append_nil]
  have hdrop : (Nat.toDigits 10 n ++ rest).dropWhile Char.isDigit = rest := by
    rw [List.dropWhile_append_of_pos hdigits, hstop.2]
  have hzero : ¬((Nat.toDigits 10 n).head? = some '0' && (Nat.toDigits 10 n).length > 1) = true := by
    intro h
    obtain ⟨hhead, hlength⟩ : (Nat.toDigits 10 n).head? = some '0' ∧
        1 < (Nat.toDigits 10 n).length := by simpa using h
    rw [head_toDigits hhead] at hlength
    exact absurd hlength (by decide)
  refine ⟨offset + (Nat.toDigits 10 n).length, ?_⟩
  unfold scanWhole
  simp only [htake, hdrop, List.isEmpty_iff, Nat.toDigits_ne_nil, ↓reduceIte, if_neg hzero,
    scanFraction_of_ends _ _ hrest]

theorem value_whole {n : Nat} (h : n ≤ significandLimit) (stop : Nat) :
    NumberParts.value ⟨false, Nat.toDigits 10 n, [], false, []⟩ stop = .ok (.int n) := by
  unfold NumberParts.value
  rw [takeDigits_toDigits h]
  rfl

theorem value_negative {n : Nat} (hn : n ≠ 0) (h : n ≤ Nat.pow 2 63) (stop : Nat) :
    NumberParts.value ⟨true, Nat.toDigits 10 n, [], false, []⟩ stop = .ok (.int (-n)) := by
  have hlimit : n ≤ significandLimit := Nat.le_trans h (by decide)
  unfold NumberParts.value
  rw [takeDigits_toDigits hlimit]
  simp [hn, h]

theorem isSpace_digit {c : Char} (hc : c.isDigit = true) : isSpace c = false := by
  rw [← Bool.not_eq_true]
  intro h
  obtain ((rfl | rfl) | rfl) | rfl : ((c = ' ' ∨ c = '\n') ∨ c = '\t') ∨ c = '\r' := by
    simpa [isSpace] using h
  all_goals exact absurd hc (by decide)

theorem read_digit {c : Char} (hc : c.isDigit = true) (start : Nat) (rest : List Char) :
    TokenScan.read start c rest = TokenScan.ofNumber start (scanWhole false start (c :: rest)) := by
  unfold TokenScan.read
  split <;> first | rw [if_pos hc] | exact absurd hc (by decide)

def Fits (n : Int) : Prop := -2 ^ 63 ≤ n ∧ n < 2 ^ 64

instance : DecidablePred Fits := fun n => inferInstanceAs (Decidable (-2 ^ 63 ≤ n ∧ n < 2 ^ 64))

theorem lex_int {n : Int} (hn : Fits n) (offset : Nat) {rest : List Char} (hrest : EndsValue rest) :
    ∃ stop, lex offset ((intText n).toList ++ rest) =
      ⟨offset, stop, .scalar (.ok (.int n))⟩ :: lex stop rest := by
  obtain ⟨hlow, hhigh⟩ := hn
  cases n with
  | ofNat n =>
    have hlimit : n ≤ significandLimit := by
      have hpower : significandLimit = 2 ^ 64 - 1 := rfl
      rw [Int.ofNat_eq_natCast] at hhigh
      omega
    obtain ⟨stop, hscan⟩ := scanWhole_toDigits false offset n hrest
    obtain ⟨d, ds, hdigits⟩ := List.exists_cons_of_ne_nil (Nat.toDigits_ne_nil (n := n) (b := 10))
    have hd : d.isDigit = true := isDigit_toDigits n d (by rw [hdigits]; exact List.mem_cons_self)
    refine ⟨stop, ?_⟩
    rw [value_whole hlimit, hdigits] at hscan
    rw [intText, Nat.toList_repr, hdigits, List.cons_append, lex_cons offset (isSpace_digit hd),
      read_digit hd, ← List.cons_append, hscan]
    rfl
  | negSucc n =>
    have hlimit : n + 1 ≤ Nat.pow 2 63 := by
      have hpower : Nat.pow 2 63 = 2 ^ 63 := rfl
      omega
    obtain ⟨stop, hscan⟩ := scanWhole_toDigits true (offset + 1) (n + 1) hrest
    rw [value_negative (Nat.succ_ne_zero n) hlimit] at hscan
    refine ⟨stop, ?_⟩
    have hread : TokenScan.read offset '-' (Nat.toDigits 10 (n + 1) ++ rest) =
        TokenScan.ofNumber offset (scanWhole true (offset + 1) (Nat.toDigits 10 (n + 1) ++ rest)) :=
      rfl
    have htext : (intText (.negSucc n)).toList = '-' :: Nat.toDigits 10 (n + 1) := by
      rw [intText, String.toList_append, Nat.toList_repr]
      rfl
    rw [htext, List.cons_append, lex_cons offset rfl, hread, hscan]
    rfl

/-! ### Texts -/

theorem lex_text (s : String) (offset : Nat) (rest : List Char) :
    ∃ stop, lex offset ((Text.json.quote s).toList ++ rest) =
      ⟨offset, stop, .string (.ok s)⟩ :: lex stop rest := by
  obtain ⟨stop, hscan⟩ := Text.scanString_chars (offset + 1) rest s.toList
  refine ⟨stop, ?_⟩
  have htext : (Text.json.quote s).toList ++ rest =
      '"' :: (Text.json.chars s.toList ++ '"' :: rest) := by
    rw [Text.Quoting.quote, String.toList_ofList, List.cons_append, List.cons_append,
      List.append_assoc]
    rfl
  have hread : TokenScan.read offset '"' (Text.json.chars s.toList ++ '"' :: rest) =
      TokenScan.ofString offset
        (scanString none (offset + 1) (Text.json.chars s.toList ++ '"' :: rest)) := rfl
  rw [htext, lex_cons offset rfl, hread, hscan]
  show (⟨offset, stop, .string (.ok (String.ofList s.toList))⟩ : Token) :: lex stop rest = _
  rw [String.ofList_toList]

end Blockwork.Json
