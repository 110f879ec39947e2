import Blockwork.Proofs.Number.Text
import Blockwork.Proofs.Target.Lexer

/-! Words, numbers and signs of written programs: how each of them lexes, and with which characters it
may begin. -/

namespace Blockwork.Target

def helpers : List String := ["String", "Math", "textToTitleCase", "listsRepeat"]

def dotted (names : List String) : String := String.join (names.map ("." ++ ·))

def numberToken (s : String) : Token :=
  if s = "NaN" ∨ s = "Infinity" then .word s else .numeral s

def UnaryOp.token : UnaryOp → Token
  | .negate => .sign "-"
  | .not => .sign "!"
  | .typeOf => .word "typeof"

def numberTokens (x : Float) : List Token :=
  if x < 0 then [.sign "-", numberToken (Number.text (-x))] else [numberToken (Number.text x)]

/-! ### Words and numbers -/

theorem isWordPart_of_mem_toDigits {n : Nat} {c : Char} (h : c ∈ Nat.toDigits 16 n) :
    isWordPart c = true := by
  have hdigit : ∀ d < 16, isWordPart (Nat.digitChar d) = true := by decide
  induction n using Nat.strongRecOn with
  | _ n ih =>
    rw [Nat.toDigits_eq_if (by decide)] at h
    split at h
    · rw [List.mem_singleton.1 h]
      exact hdigit n ‹_›
    · rcases List.mem_append.1 h with h | h
      · exact ih (n / 16) (by omega) h
      · rw [List.mem_singleton.1 h]
        exact hdigit (n % 16) (by omega)

theorem isWordPart_of_mem_mangleChar {c d : Char} (h : d ∈ mangleChar c) :
    isWordPart d = true := by
  unfold mangleChar at h
  split at h
  · rw [List.mem_singleton.1 h, isWordPart, ‹isWordChar c = true›, Bool.true_or]
  · rcases List.mem_append.1 h with h | h
    · rcases List.mem_cons.1 h with rfl | h
      · rfl
      · exact isWordPart_of_mem_toDigits h
    · rw [List.mem_singleton.1 h]
      rfl

theorem isWord_identifier (name : String) : isWord (identifier name) = true := by
  unfold identifier
  split
  · rename_i h
    obtain ⟨⟨hhead, hall⟩, -⟩ : ((name.toList.head?.any fun c => c.isAlpha || c = '_') = true ∧
        name.toList.all isWordChar = true) ∧ _ := by simpa only [isPlain, Bool.and_eq_true] using h
    unfold isWord
    cases hlist : name.toList with
    | nil => simp [hlist] at hhead
    | cons c cs =>
      rw [hlist] at hhead hall
      rw [List.all_cons, Bool.and_eq_true] at hall
      have hstart : isWordStart c = true := by
        rw [isWordStart, Bool.or_eq_true]
        exact .inl (by simpa using hhead)
      have hrest : cs.all isWordPart = true := by
        rw [List.all_eq_true] at hall ⊢
        intro d hd
        rw [isWordPart, hall.2 d hd, Bool.true_or]
      show (isWordStart c && cs.all isWordPart) = true
      rw [hstart, hrest, Bool.true_and]
  · have hall : (name.toList.flatMap mangleChar).all isWordPart = true := by
      rw [List.all_eq_true]
      intro d hd
      obtain ⟨c, -, hd⟩ := List.mem_flatMap.1 hd
      exact isWordPart_of_mem_mangleChar hd
    rw [isWord, String.toList_ofList]
    exact hall

theorem Clear.apart {rest : List Char} (h : Clear rest) : Apart rest := fun c hc => (h c hc).1

theorem isWordPart_of_isDigit {c : Char} (h : c.isDigit = true) : isWordPart c = true := by
  simp [isWordPart, isWordChar, h]

theorem isDigit_not_isWordStart {c : Char} (h : c.isDigit = true) : isWordStart c = false := by
  refine Bool.eq_false_iff.2 fun hstart => ?_
  simp only [isWordStart, Char.isAlpha, Char.isUpper, Char.isLower, Char.isDigit, Bool.or_eq_true,
    Bool.and_eq_true, decide_eq_true_eq, ge_iff_le, UInt32.le_iff_toNat_le] at h hstart
  rcases hstart with ((⟨hge, hle⟩ | ⟨hge, hle⟩) | rfl) | rfl
  · exact absurd (Nat.le_trans hge h.2) (by decide)
  · exact absurd (Nat.le_trans hge h.2) (by decide)
  · exact absurd h.2 (by decide)
  · exact absurd h.1 (by decide)

namespace Lexes

variable {rest : List Char}

theorem numeral {s : String} (h : Number.IsNumeral s) (hrest : Clear rest) :
    Lexes s.toList [.numeral s] rest := by
  obtain ⟨whole, fraction, hs, hne, hwhole, hfraction⟩ := h
  have hstop : ∀ c ∈ rest.head?, c.isDigit = false := by
    intro c hc
    by_cases h : c.isDigit = true
    · exact absurd (isWordPart_of_isDigit h) (by simp [(hrest c hc).1])
    · simpa using h
  have htake : takeNumeral (s.toList ++ rest) = (s.toList, rest) := by
    rw [hs, List.append_assoc, takeNumeral]
    rcases hfraction with rfl | ⟨ds, rfl, hds⟩
    · obtain ⟨htake, hdrop⟩ := takeWhile_append_of_stop (List.all_eq_true.2 hwhole) hstop
      rw [List.nil_append, hdrop, htake, List.append_nil]
      split
      · exact absurd rfl (hrest '.' rfl).2
      · rfl
    · have hpoint : ∀ c ∈ ('.' :: ds ++ rest).head?, c.isDigit = false := by
        rintro c hc
        obtain rfl : '.' = c := by simpa using hc
        rfl
      obtain ⟨htake, hdrop⟩ := takeWhile_append_of_stop (List.all_eq_true.2 hwhole) hpoint
      obtain ⟨htake', hdrop'⟩ := takeWhile_append_of_stop (List.all_eq_true.2 hds) hstop
      rw [hdrop, htake, List.cons_append]
      show (whole ++ '.' :: (ds ++ rest).takeWhile Char.isDigit,
        (ds ++ rest).dropWhile Char.isDigit) = _
      rw [htake', hdrop']
  refine token ?_
  cases hlist : s.toList with
  | nil => exact absurd hlist (by simp [hs, hne])
  | cons c cs =>
    have hdigit : c.isDigit = true := by
      cases whole with
      | nil => exact absurd rfl hne
      | cons d ds =>
        rw [hlist, List.cons_append] at hs
        rw [(List.cons.inj hs).1]
        exact hwhole d (by simp)
    rw [hlist, List.cons_append] at htake
    rw [List.cons_append, takeToken?, isDigit_not_isWordStart hdigit, if_neg Bool.false_ne_true,
      if_pos hdigit, htake, ← hlist, String.ofList_toList]

end Lexes

/-! ### Signs -/

theorem goesOn_minus {c : Char} (hminus : c ≠ '-') (hequal : c ≠ '=') : goesOn "-" c = false := by
  simp [goesOn, signs, List.isPrefixOf, hminus, hequal]

theorem goesOn_not {c : Char} (hequal : c ≠ '=') : goesOn "!" c = false := by
  simp [goesOn, signs, List.isPrefixOf, hequal]

theorem goesOn_point {c : Char} (hpoint : c ≠ '.') : goesOn "." c = false := by
  simp [goesOn, signs, List.isPrefixOf, hpoint]

def marks : List String := ["(", ")", "[", "]", "\x7b", "\x7d", ",", ";", ":"]

theorem goesOn_mark {s : String} (h : s ∈ marks) (c : Char) : goesOn s c = false := by
  simp only [marks, List.mem_cons, List.not_mem_nil, or_false] at h
  rcases h with rfl | rfl | rfl | rfl | rfl | rfl | rfl | rfl | rfl <;>
    simp [goesOn, signs, List.isPrefixOf]

namespace Lexes

variable {rest : List Char}

theorem mark {s : String} (h : s ∈ marks) : Lexes s.toList [.sign s] rest := by
  have hsigns : ∀ s ∈ marks, s ∈ signs := by decide
  exact sign (hsigns s h) fun c _ => goesOn_mark h c

theorem spaced {s : String} (h : s ∈ signs) (hspace : goesOn s ' ' = false) {bs : List Char}
    {ts : List Token} (hbs : Lexes bs ts rest) :
    Lexes (' ' :: (s.toList ++ ' ' :: bs)) (.sign s :: ts) rest := by
  have hsign : Lexes s.toList [.sign s] ((' ' :: bs) ++ rest) := by
    refine sign h fun c hc => ?_
    obtain rfl : ' ' = c := by simpa using hc
    exact hspace
  have hspaces : Lexes (' ' :: bs) ts rest := (space (c := ' ') rfl).append hbs
  exact (space (c := ' ') rfl).append (hsign.append hspaces)

theorem point {c : Char} {cs : List Char} (h : c ≠ '.') :
    Lexes ".".toList [.sign "."] (c :: cs) := by
  refine sign (by decide) fun d hd => ?_
  obtain rfl : c = d := by simpa using hd
  exact goesOn_point h

end Lexes

/-! ### First characters -/

def Starts (minus : Bool) (s : String) : Prop :=
  ∃ c cs, s.toList = c :: cs ∧ c ≠ '=' ∧ (c = '-' → minus = true)

theorem Starts.append {minus : Bool} {s : String} (h : Starts minus s) (t : String) :
    Starts minus (s ++ t) := by
  obtain ⟨c, cs, hs, hc⟩ := h
  exact ⟨c, cs ++ t.toList, by rw [String.toList_append, hs, List.cons_append], hc⟩

theorem Starts.of_char {s : String} {c : Char} {cs : List Char} (hs : s.toList = c :: cs)
    (h : c ≠ '=' ∧ c ≠ '-') (minus : Bool) : Starts minus s :=
  ⟨c, cs, hs, h.1, fun hc => absurd hc h.2⟩

theorem Starts.of_wordPart {s : String} {c : Char} {cs : List Char} (hs : s.toList = c :: cs)
    (h : isWordPart c = true) (minus : Bool) : Starts minus s := by
  refine .of_char hs ⟨?_, ?_⟩ minus <;> rintro rfl <;> exact absurd h (by decide)

theorem Starts.of_isWord {s : String} (h : isWord s = true) (minus : Bool) : Starts minus s := by
  unfold isWord at h
  split at h
  · exact absurd h (by simp)
  · rename_i c cs hs
    have hstart : isWordStart c = true := (Bool.and_eq_true_iff.1 h).1
    have hpart : isWordPart c = true := by
      simp only [isWordStart, isWordPart, isWordChar, Bool.or_eq_true] at hstart ⊢
      rcases hstart with (h | h) | h
      · exact .inl (.inl (.inl h))
      · exact .inl (.inr h)
      · exact .inr h
    exact .of_wordPart hs hpart minus

theorem Starts.of_isNumeral {s : String} (h : Number.IsNumeral s) (minus : Bool) :
    Starts minus s := by
  obtain ⟨whole, fraction, hs, hne, hwhole, -⟩ := h
  cases whole with
  | nil => exact absurd rfl hne
  | cons c cs => exact .of_wordPart hs (isWordPart_of_isDigit (hwhole c (by simp))) minus

theorem starts_text_of_not_neg {x : Float} (h : ¬ x < 0) (minus : Bool) :
    Starts minus (Number.text x) := by
  rcases Number.text_of_not_neg h with h | h | h
  · rw [h]
    exact .of_isWord (by decide) minus
  · rw [h]
    exact .of_isWord (by decide) minus
  · exact .of_isNumeral h minus

namespace Lexes

variable {rest : List Char}

theorem number_of_not_neg {x : Float} (h : ¬ x < 0) (hrest : Clear rest) :
    Lexes (Number.text x).toList [numberToken (Number.text x)] rest := by
  rcases Number.text_of_not_neg h with h | h | h
  · rw [h]
    exact word (by decide) hrest.apart
  · rw [h]
    exact word (by decide) hrest.apart
  · have hdigits : numberToken (Number.text x) = .numeral (Number.text x) := by
      obtain ⟨whole, fraction, hs, hne, hwhole, -⟩ := h
      refine if_neg ?_
      rintro (h | h) <;> rw [h] at hs
      all_goals
        cases whole with
        | nil => exact hne rfl
        | cons c cs =>
          have hc := hwhole c (by simp)
          rw [← (List.cons.inj hs).1] at hc
          exact absurd hc (by decide)
    rw [hdigits]
    exact numeral h hrest

theorem number (x : Float) (hrest : Clear rest) :
    Lexes (Number.text x).toList (numberTokens x) rest := by
  unfold numberTokens
  split
  · rename_i h
    have hneg := Number.not_neg_of_neg h
    obtain ⟨c, cs, hc, hequal, hminus⟩ := starts_text_of_not_neg hneg false
    have hsign : Lexes "-".toList [.sign "-"] ((Number.text (-x)).toList ++ rest) := by
      refine sign (by decide) fun d hd => ?_
      obtain rfl : c = d := by simpa [hc] using hd
      exact goesOn_minus (fun h => absurd (hminus h) (by decide)) hequal
    rw [Number.text_of_neg h, String.toList_append]
    exact hsign.append (number_of_not_neg hneg hrest)
  · exact number_of_not_neg ‹_› hrest

end Lexes

end Blockwork.Target
