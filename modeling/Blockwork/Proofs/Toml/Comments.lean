import Blockwork.Binding
import Blockwork.Proofs.Toml.Lines

/-! What may go wrong in a comment. Of the characters that a comment must not hold, the key and the
JSON text that it shows hold none, but for line feeds in the key and delete characters in the texts
of the value. -/

namespace Blockwork

mutual

def Value.leaves : Value → List Value
  | .list items => leavesOfItems items
  | v => [v]

def Value.leavesOfItems : List Value → List Value
  | [] => []
  | item :: rest => item.leaves ++ leavesOfItems rest

end

namespace Toml

def IsClear (cs : List Char) : Prop := ∀ c ∈ cs, isForbidden c = false

@[simp] theorem isClear_nil : IsClear [] := fun _ h => nomatch h

@[simp] theorem isClear_cons {c : Char} {cs : List Char} :
    IsClear (c :: cs) ↔ isForbidden c = false ∧ IsClear cs := List.forall_mem_cons

@[simp] theorem isClear_append {a b : List Char} : IsClear (a ++ b) ↔ IsClear a ∧ IsClear b :=
  List.forall_mem_append

theorem isClear_of_all {cs : List Char} (h : cs.all (fun c => !isForbidden c) = true) : IsClear cs :=
  fun c hc => by simpa using List.all_eq_true.1 h c hc

theorem isForbidden_of_alphanum {c : Char} (h : c.isAlphanum = true) : isForbidden c = false := by
  simp only [Char.isAlphanum, Char.isAlpha, Char.isUpper, Char.isLower, Char.isDigit, Bool.or_eq_true,
    Bool.and_eq_true, decide_eq_true_eq, UInt32.le_iff_toNat_le, ge_iff_le] at h
  change ((65 ≤ c.toNat ∧ c.toNat ≤ 90) ∨ (97 ≤ c.toNat ∧ c.toNat ≤ 122)) ∨
    (48 ≤ c.toNat ∧ c.toNat ≤ 57) at h
  have hlow : ¬ c.toNat < 32 := by omega
  have hdelete : c.toNat ≠ 127 := by omega
  simp [isForbidden, hlow, hdelete]

theorem isForbidden_of_bare {c : Char} (h : isBareChar c = true) : isForbidden c = false := by
  simp only [isBareChar, Bool.or_eq_true, decide_eq_true_eq] at h
  obtain (h | rfl) | rfl := h
  · exact isForbidden_of_alphanum h
  · rfl
  · rfl

theorem isForbidden_of_digit {c : Char} (h : c.isDigit = true) : isForbidden c = false :=
  isForbidden_of_alphanum (by simp [Char.isAlphanum, h])

/-! ### Keys -/

theorem isClear_hexQuad : ∀ n < 128, (hexQuad n).all (fun c => !isForbidden c) = true := by
  decide +kernel

theorem isClear_escaped {multiline : Bool} {c : Char} (h : c ≠ '\n') :
    IsClear (escaped multiline c) := by
  unfold escaped
  split_ifs with h₁ h₂ h₃ h₄ h₅ h₆
  any_goals exact isClear_of_all rfl
  · have hlt : c.toNat < 128 := by
      simp only [isControl, Bool.or_eq_true, Bool.and_eq_true, decide_eq_true_eq] at h₆
      omega
    exact isClear_append.2 ⟨isClear_of_all rfl, isClear_of_all (isClear_hexQuad _ hlt)⟩
  · simpa using isForbidden_of_isControl (by simpa using h₆) h

theorem isClear_escapedChars {multiline : Bool} {cs : List Char} (h : '\n' ∉ cs) (quotes : ℕ) :
    IsClear (escapedChars multiline quotes cs) := by
  induction cs generalizing quotes with
  | nil => exact isClear_nil
  | cons c cs ih =>
    obtain ⟨hc, hcs⟩ := not_or.1 (mt List.mem_cons.2 h)
    have hmarks : isForbidden '"' = false ∧ isForbidden '\\' = false := ⟨rfl, rfl⟩
    have hchar : IsClear (escaped multiline c) := isClear_escaped (Ne.symm hc)
    rw [escapedChars]
    split_ifs <;> simp [ih hcs, hmarks, hchar]

theorem isClear_plain {cs : List Char} (h : '\n' ∉ cs) (hcontrol : cs.any isControl = false) :
    IsClear cs := fun c hc =>
  isForbidden_of_isControl (by simpa using List.any_eq_false.1 hcontrol c hc) fun he => h (he ▸ hc)

theorem isClear_fence {mark : String} {cs body : List Char} (h : '\n' ∉ cs)
    (hmark : IsClear mark.toList) (hbody : IsClear body) : IsClear (fence mark cs body).toList := by
  simp [fence, h, hmark, hbody]

theorem isClear_stringText {s : String} (h : '\n' ∉ s.toList) : IsClear (stringText s).toList := by
  have hquote : isForbidden '"' = false ∧ isForbidden '\'' = false := ⟨rfl, rfl⟩
  unfold stringText
  dsimp only
  generalize s.toList = cs at h ⊢
  have hbasic : IsClear (basic cs).toList := by
    simp [toList_basic, hquote, isClear_escapedChars h]
  have hblock : IsClear (basicBlock cs).toList :=
    isClear_fence h (isClear_of_all rfl) (isClear_escapedChars h 0)
  split_ifs with h₁ h₂ h₃ h₄ h₅
  · exact hbasic
  · simp only [Bool.and_eq_true, Bool.not_eq_true'] at h₂
    simp [toList_literal, hquote, isClear_plain h h₂.1.1]
  · exact hblock
  · simp only [Bool.and_eq_true, Bool.not_eq_true'] at h₄
    exact isClear_fence h (isClear_of_all rfl) (isClear_plain h h₄.1)
  · exact hblock
  · exact hbasic

theorem isClear_keyText {name : String} (h : '\n' ∉ name.toList) : IsClear (keyText name).toList := by
  obtain ⟨hkey, -, hbare, -⟩ | hkey := keyText_cases name <;> rw [hkey]
  · exact fun c hc => isForbidden_of_bare (hbare c hc)
  · exact isClear_stringText h

/-! ### Numbers -/

section Numbers

open Number

theorem isClear_digits {cs : List Char} (h : ∀ c ∈ cs, c.isDigit = true) : IsClear cs :=
  fun c hc => isForbidden_of_digit (h c hc)

theorem isClear_toDigits (n : ℕ) : IsClear (Nat.toDigits 10 n) :=
  isClear_digits (Json.isDigit_toDigits n)

theorem isClear_zeros (n : ℕ) : IsClear (Layout.zeros n).toList := by
  rw [Layout.zeros, String.toList_ofList]
  exact fun c hc => (List.mem_replicate.1 hc).2 ▸ rfl

theorem isClear_inFull {digits : List Char} (h : IsClear digits) (l : Layout) (point : ℤ) :
    IsClear (l.inFull digits point).toList := by
  have htake : ∀ n, IsClear (digits.take n) := fun n c hc => h c (List.mem_of_mem_take hc)
  have hdrop : ∀ n, IsClear (digits.drop n) := fun n c hc => h c (List.mem_of_mem_drop hc)
  have hmarks : isForbidden '0' = false ∧ isForbidden '.' = false := ⟨rfl, rfl⟩
  unfold Layout.inFull
  dsimp only
  split_ifs <;> simp [isClear_zeros, htake, hdrop, hmarks, h]

theorem isClear_scientific {digits : List Char} (h : IsClear digits) (l : Layout) (exponent : ℤ) :
    IsClear (l.scientific digits exponent).toList := by
  have htake : ∀ n, IsClear (digits.take n) := fun n c hc => h c (List.mem_of_mem_take hc)
  have htail : IsClear digits.tail := fun c hc => h c (List.mem_of_mem_tail hc)
  have hmarks : isForbidden 'e' = false ∧ isForbidden '.' = false ∧ isForbidden '-' = false ∧
      isForbidden '+' = false := ⟨rfl, rfl, rfl, rfl⟩
  unfold Layout.scientific
  dsimp only
  split_ifs <;> simp [isClear_toDigits, htake, htail, hmarks]

theorem isClear_render {l : Layout} (hnan : IsClear l.nan.toList)
    (hinfinity : IsClear l.infinity.toList) (x : Float) : IsClear (l.render x).toList := by
  have hsign : isForbidden '-' = false := rfl
  have hmagnitude : ∀ b, IsClear (l.magnitude b).toList := by
    intro b
    unfold Layout.magnitude
    dsimp only
    split_ifs
    · exact isClear_of_all rfl
    · exact isClear_of_all rfl
    · split
      · exact isClear_inFull (isClear_toDigits _) _ _
      · split_ifs
        · exact isClear_inFull (isClear_toDigits _) _ _
        · exact isClear_scientific (isClear_toDigits _) _ _
  unfold Layout.render
  split
  · split_ifs <;> simp [hmagnitude, hsign]
  · split_ifs <;> simp [hnan, hinfinity, hsign]

theorem isClear_text (x : Float) : IsClear (Number.text x).toList :=
  isClear_render (isClear_of_all rfl) (isClear_of_all rfl) x

theorem isClear_intText (n : ℤ) : IsClear (Json.intText n).toList := by
  cases n with
  | ofNat n => simpa [Json.intText] using isClear_toDigits n
  | negSucc n =>
    have hsign : isForbidden '-' = false := rfl
    simpa [Json.intText, hsign] using isClear_toDigits (n + 1)

end Numbers

/-! ### The JSON texts of values -/

section Values

variable {c : Char}

theorem not_mem_of_isClear (hc : isForbidden c = true) {cs : List Char} (h : IsClear cs) : c ∉ cs :=
  fun hmem => by simp [h c hmem] at hc

theorem isClear_json_escape : ∀ n < 32, (Text.json.byNumber n).all (fun c => !isForbidden c) = true := by
  decide

theorem mem_char_json (hc : isForbidden c = true) (d : Char) :
    c ∈ Text.json.char d ↔ c = d ∧ c = '\x7f' := by
  have hletters : ∀ e ∈ Text.json.letters, isForbidden e.2 = false ∧ e.1 ≠ '\x7f' := by decide
  have hclear : ∀ {cs : List Char}, IsClear cs → d ≠ '\x7f' → (c ∈ cs ↔ c = d ∧ c = '\x7f') := by
    intro cs hcs hd
    exact iff_of_false (not_mem_of_isClear hc hcs) fun h => hd (h.1 ▸ h.2)
  unfold Text.Quoting.char
  cases hd : Text.json.letters.lookup d with
  | some letter =>
    obtain ⟨before, after, hsplit, -⟩ := List.lookup_eq_some_iff.1 hd
    obtain ⟨hletter, hdelete⟩ := hletters (d, letter) (by simp [hsplit])
    have hslash : isForbidden '\\' = false := rfl
    exact hclear (by simp [hletter, hslash]) hdelete
  | none =>
    cases hplain : Text.json.plain d with
    | true =>
      have hlow : 32 ≤ d.toNat := of_decide_eq_true hplain
      show c ∈ [d] ↔ _
      rw [List.mem_singleton]
      refine ⟨fun h => ⟨h, ?_⟩, And.left⟩
      subst h
      simp only [isForbidden, Bool.or_eq_true, Bool.and_eq_true, decide_eq_true_eq] at hc
      rw [← Char.ofNat_toNat c, show c.toNat = 127 by omega]
    | false =>
      have hlow : d.toNat < 32 := Nat.lt_of_not_le (of_decide_eq_false hplain)
      refine hclear (isClear_of_all (isClear_json_escape _ hlow)) ?_
      rintro rfl
      exact absurd hlow (by decide)

theorem mem_quote_json (hc : isForbidden c = true) (s : String) :
    c ∈ (Text.json.quote s).toList ↔ c = '\x7f' ∧ c ∈ s.toList := by
  have hquote : c ≠ '"' := by rintro rfl; cases hc
  simp [Text.Quoting.quote, Text.Quoting.chars, hquote, mem_char_json hc, and_comm]

mutual

theorem mem_json_render (hc : isForbidden c = true) : ∀ v : Value,
    c ∈ v.json.render.toList ↔ c = '\x7f' ∧ ∃ s, .text s ∈ v.leaves ∧ c ∈ s.toList
  | .null => by
    have h : IsClear (Value.json .null).render.toList := isClear_of_all rfl
    simp [not_mem_of_isClear hc h, Value.leaves]
  | .boolean b => by
    have h : IsClear (Value.json (.boolean b)).render.toList := by
      cases b <;> exact isClear_of_all rfl
    simp [not_mem_of_isClear hc h, Value.leaves]
  | .number x => by
    have h : c ∉ (Value.json (.number x)).render.toList := by
      rw [Value.json]
      split
      · exact not_mem_of_isClear hc (isClear_intText _)
      · split_ifs
        · exact not_mem_of_isClear hc (isClear_render (isClear_of_all rfl) (isClear_of_all rfl) x)
        · show c ∉ (Text.json.quote (Number.text x)).toList
          rw [mem_quote_json hc]
          exact fun hmem => not_mem_of_isClear hc (isClear_text x) hmem.2
    simp [h, Value.leaves]
  | .text s => by
    simp [Value.json, Json.render, mem_quote_json hc, Value.leaves]
  | .list items => by
    have hmarks : c ≠ '[' ∧ c ≠ ']' := by constructor <;> rintro rfl <;> cases hc
    simp [Value.json, Json.render, hmarks, mem_jsonItems_render hc items, Value.leaves]

theorem mem_jsonItems_render (hc : isForbidden c = true) : ∀ items : List Value,
    c ∈ (Json.renderItems (Value.jsonItems items)).toList ↔
      c = '\x7f' ∧ ∃ s, .text s ∈ Value.leavesOfItems items ∧ c ∈ s.toList
  | [] => by simp [Value.jsonItems, Json.renderItems, Value.leavesOfItems]
  | [item] => by
    simp [Value.jsonItems, Json.renderItems, Value.leavesOfItems, mem_json_render hc item]
  | item :: next :: rest => by
    have hmark : c ≠ ',' := by rintro rfl; cases hc
    have htext : Json.renderItems (Value.jsonItems (item :: next :: rest)) =
        item.json.render ++ "," ++ Json.renderItems (Value.jsonItems (next :: rest)) := by
      rw [Value.jsonItems, Value.jsonItems, Json.renderItems]
      simp
    rw [htext, Value.leavesOfItems]
    simp only [String.toList_append, List.mem_append, mem_json_render hc item,
      mem_jsonItems_render hc (next :: rest)]
    simp [hmark, or_and_right, exists_or, and_or_left]

end

end Values

end Toml

end Blockwork
