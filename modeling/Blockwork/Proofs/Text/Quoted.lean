import Mathlib
import Blockwork.Json.Token
import Blockwork.Text.Quoted

/-! Quoted texts read back. Every character of a text is scanned from the way it is written between
quotes, whatever follows. -/

namespace Blockwork.Text

open Json

variable (offset : Nat) (rest : List Char)

theorem scanString_letter {c letter : Char} (h : escapeLetter? letter = some c)
    (hu : letter ≠ 'u') :
    scanString none offset ('\\' :: letter :: rest) = (scanString none (offset + 2) rest).push c := by
  rw [scanString]
  · rw [if_neg hu, h]
    rfl
  · exact fun _ _ _ _ _ hletter _ => hu hletter

theorem scanString_plain {c : Char} (hc : 32 ≤ c.toNat) (hquote : c ≠ '"') (hslash : c ≠ '\\') :
    scanString none offset (c :: rest) = (scanString none (offset + c.utf8Size) rest).push c := by
  rw [scanString]
  · rw [if_neg (by omega)]
    rfl
  · exact hquote
  · exact fun h _ => hslash h
  · exact fun _ _ _ _ _ h _ => hslash h
  · exact fun _ _ h _ => hslash h

theorem scanString_byNumber {c : Char} (hc : c.toNat < 32) :
    scanString none offset (json.byNumber c.toNat ++ rest) =
      (scanString none (offset + 6) rest).push c := by
  have hunit : ∀ n < 32, hexUnit? '0' '0' (Nat.digitChar (n / 16)) (Nat.digitChar (n % 16)) =
      some n := by decide
  have hlow : isLowSurrogate c.toNat = false := by
    rw [isLowSurrogate, decide_eq_false (by omega), Bool.false_and]
  have hhigh : isHighSurrogate c.toNat = false := by
    rw [isHighSurrogate, decide_eq_false (by omega), Bool.false_and]
  show scanString none offset ('\\' :: 'u' :: '0' :: '0' :: Nat.digitChar (c.toNat / 16) ::
    Nat.digitChar (c.toNat % 16) :: rest) = _
  rw [scanString, hunit _ hc]
  show (if isLowSurrogate c.toNat then _ else if isHighSurrogate c.toNat then _ else
    ((scanString none (offset + 6) rest).push (Char.ofNat c.toNat)).unpaired none _) = _
  rw [hlow, hhigh, Char.ofNat_toNat]
  rfl

theorem scanString_char (c : Char) : ∃ offset', scanString none offset (json.char c ++ rest) =
    (scanString none offset' rest).push c := by
  have hletters : ∀ e ∈ json.letters, escapeLetter? e.2 = some e.1 ∧ e.2 ≠ 'u' := by decide
  unfold Quoting.char
  cases hc : json.letters.lookup c with
  | some letter =>
    obtain ⟨before, after, hsplit, -⟩ := List.lookup_eq_some_iff.1 hc
    obtain ⟨hescape, hu⟩ := hletters (c, letter) (by simp [hsplit])
    exact ⟨_, scanString_letter offset rest hescape hu⟩
  | none =>
    have hnone : ∀ e ∈ json.letters, c ≠ e.1 := by
      simpa using List.lookup_eq_none_iff.1 hc
    cases hplain : json.plain c with
    | true =>
      have hquote : c ≠ '"' := hnone ('"', '"') (by decide)
      have hslash : c ≠ '\\' := hnone ('\\', '\\') (by decide)
      exact ⟨_, scanString_plain offset rest (of_decide_eq_true hplain) hquote hslash⟩
    | false =>
      have hlow : c.toNat < 32 := Nat.lt_of_not_le (of_decide_eq_false hplain)
      exact ⟨_, scanString_byNumber offset rest hlow⟩

/-- What is written between quotes is scanned as the text that was written. -/
theorem scanString_chars (cs : List Char) : ∃ stop,
    scanString none offset (json.chars cs ++ '"' :: rest) = .closed (.ok cs) stop rest := by
  induction cs generalizing offset with
  | nil => exact ⟨offset + 1, by rw [Quoting.chars, List.flatMap_nil, List.nil_append, scanString]; rfl⟩
  | cons c cs ih =>
    obtain ⟨offset', hc⟩ := scanString_char offset (json.chars cs ++ '"' :: rest) c
    obtain ⟨stop, hcs⟩ := ih offset'
    refine ⟨stop, ?_⟩
    rw [Quoting.chars, List.flatMap_cons, List.append_assoc]
    rw [Quoting.chars] at hc hcs
    rw [hc, hcs]
    rfl

end Blockwork.Text
