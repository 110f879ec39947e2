import Mathlib
import Blockwork.Toml.Print
import Blockwork.Toml.Text

/-! The written strings are read back: whichever form the printer takes, the reader finds its end and
the same text in it. -/

namespace Blockwork.Toml

theorem isForbidden_of_isControl {c : Char} (h : isControl c = false) (hline : c ≠ '\n') :
    isForbidden c = false := by
  unfold isControl at h
  unfold isForbidden
  simp_all

/-! ### Strings on one line -/

attribute [local simp] takeBasic takeBasicBlock takeLiteral takeLiteralBlock

theorem takeBasic_plain {c : Char} (hquote : c ≠ '"') (hescape : c ≠ '\\') (hc : isForbidden c = false)
    (rest : List Char) : takeBasic (c :: rest) = putFirst c (takeBasic rest) := by
  simp [hescape, hc]

theorem letterEscape?_ne {c d : Char} (hd : letterEscape? d = some c) :
    d ≠ 'u' ∧ d ≠ 'U' ∧ d ≠ '\n' ∧ d ≠ '\r' ∧ d ≠ ' ' ∧ d ≠ '\t' := by
  refine ⟨?_, ?_, ?_, ?_, ?_, ?_⟩ <;> rintro rfl <;> simp [letterEscape?] at hd

theorem takeBasic_letter {c d : Char} (hd : letterEscape? d = some c) (rest : List Char) :
    takeBasic ('\\' :: d :: rest) = putFirst c (takeBasic rest) := by
  simp [letterEscape?_ne hd, hd]

theorem takeBasic_code {a b c d e : Char} (h : ofCode? [a, b, c, d] = some e) (rest : List Char) :
    takeBasic ('\\' :: 'u' :: a :: b :: c :: d :: rest) = putFirst e (takeBasic rest) := by
  simp [h]

/-! ### Blocks -/

theorem takeBasicBlock_plain {c : Char} (hquote : c ≠ '"') (hescape : c ≠ '\\')
    (hc : isForbidden c = false ∨ c = '\n') (rest : List Char) :
    takeBasicBlock .text (c :: rest) = putFirst c (takeBasicBlock .text rest) := by
  have hreturn : c ≠ '\r' := by
    rintro rfl
    rcases hc with hc | hc <;> exact absurd hc (by decide)
  rcases hc with hc | rfl
  · by_cases hline : c = '\n' <;> simp [hline, hquote, hescape, hreturn, hc]
  · simp

theorem takeBasicBlock_letter {c d : Char} (hd : letterEscape? d = some c) (rest : List Char) :
    takeBasicBlock .text ('\\' :: d :: rest) = putFirst c (takeBasicBlock .text rest) := by
  simp [letterEscape?_ne hd, hd]

theorem takeBasicBlock_code {a b c d e : Char} (h : ofCode? [a, b, c, d] = some e)
    (rest : List Char) : takeBasicBlock .text ('\\' :: 'u' :: a :: b :: c :: d :: rest) =
      putFirst e (takeBasicBlock .text rest) := by
  simp [h]

theorem takeBasicBlock_quote {tail : List Char} (htail : ∀ rest, tail ≠ '"' :: '"' :: rest) :
    takeBasicBlock .text ('"' :: tail) = putFirst '"' (takeBasicBlock .text tail) := by
  rw [takeBasicBlock]
  · simp [isForbidden]
  all_goals simp [htail]

/-! ### Escapes -/

theorem hexQuad_reads : ∀ n < 128, (hexQuad n).length = 4 ∧ ofCode? (hexQuad n) = some (Char.ofNat n) := by
  decide +kernel

theorem escaped_cases (multiline : Bool) (c : Char) :
    (∃ d, escaped multiline c = ['\\', d] ∧ letterEscape? d = some c) ∨
    (∃ w x y z, escaped multiline c = ['\\', 'u', w, x, y, z] ∧ ofCode? [w, x, y, z] = some c) ∨
    (escaped multiline c = [c] ∧ c ≠ '\\' ∧
      (isForbidden c = false ∨ multiline = true ∧ c = '\n')) := by
  unfold escaped
  split_ifs with h₁ h₂ h₃ h₄ h₅ h₆ h₇ h₈
  · exact .inl ⟨_, rfl, h₁ ▸ rfl⟩
  · exact .inl ⟨_, rfl, h₂ ▸ rfl⟩
  · exact .inr (.inr ⟨h₃ ▸ rfl, by rw [h₃]; decide, .inr ⟨h₄, h₃⟩⟩)
  · exact .inl ⟨_, rfl, h₃ ▸ rfl⟩
  · exact .inl ⟨_, rfl, h₅ ▸ rfl⟩
  · exact .inl ⟨_, rfl, h₆ ▸ rfl⟩
  · exact .inl ⟨_, rfl, by rw [h₇]; rfl⟩
  · have hlt : c.toNat < 128 := by
      simp only [isControl, Bool.or_eq_true, Bool.and_eq_true, decide_eq_true_eq] at h₈
      omega
    obtain ⟨hlength, hcode⟩ := hexQuad_reads c.toNat hlt
    rw [Char.ofNat_toNat] at hcode
    obtain ⟨w, x, y, z, hquad⟩ := List.length_eq_four.1 hlength
    rw [hquad] at hcode ⊢
    exact .inr (.inl ⟨w, x, y, z, rfl, hcode⟩)
  · exact .inr (.inr ⟨rfl, h₇, .inl (isForbidden_of_isControl (by simpa using h₈) h₃)⟩)

theorem takeBasic_escaped {c : Char} (hc : c ≠ '"') (rest : List Char) :
    takeBasic (escaped false c ++ rest) = putFirst c (takeBasic rest) := by
  obtain ⟨d, h, hd⟩ | ⟨w, x, y, z, h, hcode⟩ | ⟨h, hescape, hplain⟩ := escaped_cases false c
  · rw [h]
    exact takeBasic_letter hd rest
  · rw [h]
    exact takeBasic_code hcode rest
  · rw [h]
    exact takeBasic_plain hc hescape (hplain.resolve_right (by simp)) rest

theorem takeBasicBlock_escaped {c : Char} (hc : c ≠ '"') (rest : List Char) :
    takeBasicBlock .text (escaped true c ++ rest) = putFirst c (takeBasicBlock .text rest) := by
  obtain ⟨d, h, hd⟩ | ⟨w, x, y, z, h, hcode⟩ | ⟨h, hescape, hplain⟩ := escaped_cases true c
  · rw [h]
    exact takeBasicBlock_letter hd rest
  · rw [h]
    exact takeBasicBlock_code hcode rest
  · rw [h]
    exact takeBasicBlock_plain hc hescape (hplain.imp id And.right) rest

theorem takeBasic_escapedChars (cs : List Char) (quotes : ℕ) (rest : List Char) :
    takeBasic (escapedChars false quotes cs ++ '"' :: rest) = some (cs, rest) := by
  induction cs generalizing quotes with
  | nil => simp [escapedChars]
  | cons c cs ih =>
    rw [escapedChars]
    split
    · rename_i hquote
      rw [if_neg (by simp), List.cons_append, List.cons_append, takeBasic_letter rfl, ih, hquote]
      rfl
    · rename_i hquote
      rw [List.append_assoc, takeBasic_escaped hquote, ih]
      rfl

/-! ### Rows of quotes in a block -/

section Rows

variable {tail text after rest : List Char} {q : ℕ}

theorem takeBasicBlock_quotes (hq : q ≤ 2) (htail : ∀ t, tail ≠ '"' :: t)
    (h : takeBasicBlock .text tail = some (text, after)) :
    takeBasicBlock .text (List.replicate q '"' ++ tail) =
      some (List.replicate q '"' ++ text, after) := by
  interval_cases q
  · exact h
  · show takeBasicBlock .text ('"' :: tail) = _
    rw [takeBasicBlock_quote (fun t => htail _), h]
    rfl
  · show takeBasicBlock .text ('"' :: '"' :: tail) = _
    rw [takeBasicBlock_quote (fun t ht => htail _ (List.cons.inj ht).2),
      takeBasicBlock_quote (fun t => htail _), h]
    rfl

theorem takeBasicBlock_close (hq : q ≤ 2) (hrest : ∀ t, rest ≠ '"' :: t) :
    takeBasicBlock .text (List.replicate q '"' ++ '"' :: '"' :: '"' :: rest) =
      some (List.replicate q '"', rest) := by
  interval_cases q <;> simp [hrest]

theorem escaped_ne_quote {c : Char} (hc : c ≠ '"') (t : List Char) :
    escaped true c ++ tail ≠ '"' :: t := by
  obtain ⟨d, h, -⟩ | ⟨w, x, y, z, h, -⟩ | ⟨h, -⟩ := escaped_cases true c <;> rw [h] <;> simp [hc]

/-- The rows of quotes in the text are short enough to be told from the closing ones. -/
theorem takeBasicBlock_escapedChars (cs : List Char) (hq : q ≤ 2) (hrest : ∀ t, rest ≠ '"' :: t) :
    takeBasicBlock .text (List.replicate q '"' ++ (escapedChars true q cs ++
      '"' :: '"' :: '"' :: rest)) = some (List.replicate q '"' ++ cs, rest) := by
  induction cs generalizing q with
  | nil =>
    rw [escapedChars, List.nil_append, List.append_nil]
    exact takeBasicBlock_close hq hrest
  | cons c cs ih =>
    rw [escapedChars]
    by_cases hquote : c = '"'
    · rw [if_pos hquote, if_pos rfl, hquote]
      by_cases hrow : q < 2
      · -- the row goes on
        have := @ih (q + 1) hrow
        rw [List.replicate_succ'] at this
        simpa [hrow] using this
      · rw [if_neg hrow]
        refine takeBasicBlock_quotes hq (by simp) ?_
        have := @ih 0 (Nat.zero_le 2)
        rw [List.cons_append, List.cons_append, takeBasicBlock_letter rfl]
        simp only [List.replicate_zero, List.nil_append] at this
        rw [this]
        rfl
    · rw [if_neg hquote]
      refine takeBasicBlock_quotes hq ?_ ?_
      · rw [List.append_assoc]
        exact escaped_ne_quote hquote
      · have := @ih 0 (Nat.zero_le 2)
        simp only [List.replicate_zero, List.nil_append] at this
        rw [List.append_assoc, takeBasicBlock_escaped hquote, this]
        rfl

end Rows

/-! ### Literal strings -/

theorem takeLiteral_chars {cs : List Char} (h : ∀ c ∈ cs, c ≠ '\'' ∧ isForbidden c = false)
    (rest : List Char) : takeLiteral (cs ++ '\'' :: rest) = some (cs, rest) := by
  induction cs with
  | nil => rfl
  | cons c cs ih =>
    obtain ⟨hquote, hc⟩ := h c List.mem_cons_self
    have ih := ih fun c hc => h c (List.mem_cons_of_mem _ hc)
    simp [hquote, hc, ih, putFirst]

section LiteralRows

variable {tail text after rest : List Char} {q best : ℕ}

theorem le_longestRun (c : Char) (cs : List Char) (run best : ℕ) :
    run ≤ longestRun.go c run best cs ∧ best ≤ longestRun.go c run best cs := by
  induction cs generalizing run best with
  | nil => exact ⟨Nat.le_max_left _ _, Nat.le_max_right _ _⟩
  | cons d cs ih =>
    rw [longestRun.go]
    split
    · exact ⟨Nat.le_of_succ_le (ih _ _).1, (ih _ _).2⟩
    · exact ⟨Nat.le_trans (Nat.le_max_left _ _) (ih _ _).2,
        Nat.le_trans (Nat.le_max_right _ _) (ih _ _).2⟩

theorem longestRun_pos {c : Char} {cs : List Char} (h : c ∈ cs) (run best : ℕ) :
    0 < longestRun.go c run best cs := by
  induction cs generalizing run best with
  | nil => cases h
  | cons d cs ih =>
    rw [longestRun.go]
    split
    · exact Nat.lt_of_lt_of_le (Nat.succ_pos run) (le_longestRun c cs _ _).1
    · rename_i hd
      refine ih ?_ _ _
      rcases List.mem_cons.1 h with rfl | h
      · exact absurd rfl hd
      · exact h

theorem takeLiteralBlock_plain {c : Char} (hquote : c ≠ '\'') (hc : isControl c = false)
    (rest : List Char) : takeLiteralBlock (c :: rest) = putFirst c (takeLiteralBlock rest) := by
  have hreturn : c ≠ '\r' := by rintro rfl; exact absurd hc (by decide)
  by_cases hline : c = '\n'
  · simp [hline]
  · simp [hquote, hreturn, hline, isForbidden_of_isControl hc hline]

theorem takeLiteralBlock_quotes (hq : q ≤ 2) (htail : ∀ t, tail ≠ '\'' :: t)
    (h : takeLiteralBlock tail = some (text, after)) :
    takeLiteralBlock (List.replicate q '\'' ++ tail) =
      some (List.replicate q '\'' ++ text, after) := by
  have hone : takeLiteralBlock ('\'' :: tail) = some ('\'' :: text, after) := by
    simp [htail, h, isForbidden, putFirst]
  interval_cases q
  · exact h
  · exact hone
  · simp [htail, hone, isForbidden, putFirst]

theorem takeLiteralBlock_close (hq : q ≤ 2) (hrest : ∀ t, rest ≠ '\'' :: t) :
    takeLiteralBlock (List.replicate q '\'' ++ '\'' :: '\'' :: '\'' :: rest) =
      some (List.replicate q '\'', rest) := by
  interval_cases q <;> simp [hrest]

theorem takeLiteralBlock_chars {cs : List Char} (h : ∀ c ∈ cs, isControl c = false)
    (hrow : longestRun.go '\'' q best cs ≤ 2) (hrest : ∀ t, rest ≠ '\'' :: t) :
    takeLiteralBlock (List.replicate q '\'' ++ (cs ++ '\'' :: '\'' :: '\'' :: rest)) =
      some (List.replicate q '\'' ++ cs, rest) := by
  have hq : q ≤ 2 := Nat.le_trans (le_longestRun '\'' cs q best).1 hrow
  induction cs generalizing q best with
  | nil =>
    rw [List.nil_append, List.append_nil]
    exact takeLiteralBlock_close hq hrest
  | cons c cs ih =>
    have hcs := fun c hc => h c (List.mem_cons_of_mem _ hc)
    rw [longestRun.go] at hrow
    by_cases hquote : c = '\''
    · rw [if_pos hquote] at hrow
      have := ih hcs hrow (Nat.le_trans (le_longestRun _ cs _ _).1 hrow)
      rw [List.replicate_succ'] at this
      simpa [hquote] using this
    · rw [if_neg hquote] at hrow
      refine takeLiteralBlock_quotes hq (by simp [hquote]) ?_
      have := ih hcs hrow (Nat.zero_le 2)
      simp only [List.replicate_zero, List.nil_append] at this
      rw [List.cons_append, takeLiteralBlock_plain hquote (h c List.mem_cons_self), this]
      rfl

end LiteralRows

/-! ### Whole strings -/

def EndsString (rest : List Char) : Prop := ∀ t, rest ≠ '"' :: t ∧ rest ≠ '\'' :: t

section Strings

variable {cs rest : List Char}

theorem toList_basic (cs : List Char) :
    (basic cs).toList = '"' :: (escapedChars false 0 cs ++ ['"']) := by
  simp [basic]

theorem toList_literal (cs : List Char) : (literal cs).toList = '\'' :: (cs ++ ['\'']) := by
  simp [literal]

theorem takeLine?_basic (cs rest : List Char) :
    takeLine? ((basic cs).toList ++ rest) = some (some (cs, rest)) := by
  rw [toList_basic]
  simp only [List.cons_append, List.append_assoc, List.nil_append, takeLine?, takeBasic_escapedChars]

theorem takeLine?_literal (h : ∀ c ∈ cs, c ≠ '\'' ∧ isForbidden c = false) (rest : List Char) :
    takeLine? ((literal cs).toList ++ rest) = some (some (cs, rest)) := by
  rw [toList_literal]
  simp only [List.cons_append, List.append_assoc, List.nil_append, takeLine?, takeLiteral_chars h]

theorem escapedChars_ne_quote (cs t : List Char) : escapedChars false 0 cs ≠ '"' :: t := by
  cases cs with
  | nil => simp [escapedChars]
  | cons c cs =>
    rw [escapedChars]
    split
    · simp
    · rename_i hquote
      obtain ⟨d, h, -⟩ | ⟨w, x, y, z, h, -⟩ | ⟨h, -⟩ := escaped_cases false c <;> rw [h] <;>
        simp [hquote]

theorem takeString?_basic (cs : List Char) (hrest : EndsString rest) :
    takeString? ((basic cs).toList ++ rest) = some (some (cs, rest)) := by
  rw [← takeLine?_basic cs rest]
  -- an empty string is not the opening of a block
  have hopen : ∀ t, (basic cs).toList ++ rest ≠ '"' :: '"' :: '"' :: t := by
    intro t h
    rw [toList_basic] at h
    cases hcs : escapedChars false 0 cs with
    | nil =>
      have h : rest = '"' :: t := by simpa [hcs] using h
      exact (hrest t).1 h
    | cons d ds =>
      rw [hcs] at h
      simp only [List.cons_append, List.cons.injEq, true_and] at h
      exact escapedChars_ne_quote cs ds (by rw [hcs, h.1])
  have hopen' : ∀ t, (basic cs).toList ++ rest ≠ '\'' :: '\'' :: '\'' :: t := by
    rw [toList_basic]
    simp
  rw [takeString?]
  · exact hopen
  · exact hopen'

theorem takeString?_literal (h : ∀ c ∈ cs, c ≠ '\'' ∧ isForbidden c = false)
    (hrest : EndsString rest) :
    takeString? ((literal cs).toList ++ rest) = some (some (cs, rest)) := by
  rw [← takeLine?_literal h rest]
  have hopen : ∀ t, (literal cs).toList ++ rest ≠ '"' :: '"' :: '"' :: t := by
    rw [toList_literal]
    simp
  have hopen' : ∀ t, (literal cs).toList ++ rest ≠ '\'' :: '\'' :: '\'' :: t := by
    intro t ht
    rw [toList_literal] at ht
    cases cs with
    | nil =>
      have ht : rest = '\'' :: t := by simpa using ht
      exact (hrest t).2 ht
    | cons c cs =>
      simp only [List.cons_append, List.cons.injEq, true_and] at ht
      exact (h c List.mem_cons_self).1 ht.1
  rw [takeString?]
  · exact hopen
  · exact hopen'

theorem dropLineFeed_eq {body : List Char} (h : ∀ t, body ≠ '\n' :: t ∧ body ≠ '\r' :: t) :
    dropLineFeed body = body := by
  unfold dropLineFeed
  split
  · exact absurd rfl (h _).1
  · exact absurd rfl (h _).2
  · rfl

theorem dropLineFeed_fence {body : List Char}
    (h : '\n' ∉ cs → ∀ t, body ++ rest ≠ '\n' :: t ∧ body ++ rest ≠ '\r' :: t) :
    dropLineFeed ((if cs.contains '\n' then "\n" else "").toList ++ (body ++ rest)) =
      body ++ rest := by
  by_cases hcontains : '\n' ∈ cs
  · rw [if_pos (by simpa using hcontains)]
    rfl
  · rw [if_neg (by simpa using hcontains)]
    exact dropLineFeed_eq (h hcontains)

theorem takeString?_basicBlock (cs : List Char) (hrest : EndsString rest) :
    takeString? ((basicBlock cs).toList ++ rest) = some (some (cs, rest)) := by
  have htext : (basicBlock cs).toList ++ rest = '"' :: '"' :: '"' ::
      ((if cs.contains '\n' then "\n" else "").toList ++
        (escapedChars true 0 cs ++ '"' :: '"' :: '"' :: rest)) := by
    simp [basicBlock, fence]
  rw [htext, takeString?, dropLineFeed_fence]
  · have := takeBasicBlock_escapedChars cs (Nat.zero_le 2) fun t => (hrest t).1
    simp only [List.replicate_zero, List.nil_append] at this
    rw [this]
  · intro hcontains t
    cases cs with
    | nil => simp [escapedChars]
    | cons c cs =>
      rw [escapedChars]
      have hline : c ≠ '\n' := by rintro rfl; simp at hcontains
      split
      · simp
      · obtain ⟨d, h, -⟩ | ⟨w, x, y, z, h, -⟩ | ⟨h, hescape, hc⟩ := escaped_cases true c <;> rw [h]
        · simp
        · simp
        · have hreturn : c ≠ '\r' := by
            rintro rfl
            rcases hc with hc | hc
            · exact absurd hc (by decide)
            · exact absurd hc.2 (by decide)
          simp [hline, hreturn]

theorem takeString?_literalBlock (h : ∀ c ∈ cs, isControl c = false)
    (hrow : longestRun '\'' cs ≤ 2) (hrest : EndsString rest) :
    takeString? ((literalBlock cs).toList ++ rest) = some (some (cs, rest)) := by
  have htext : (literalBlock cs).toList ++ rest = '\'' :: '\'' :: '\'' ::
      ((if cs.contains '\n' then "\n" else "").toList ++
        (cs ++ '\'' :: '\'' :: '\'' :: rest)) := by
    simp [literalBlock, fence]
  rw [htext, takeString?, dropLineFeed_fence]
  · have := takeLiteralBlock_chars h hrow fun t => (hrest t).2
    simp only [List.replicate_zero, List.nil_append] at this
    rw [this]
  · intro hcontains t
    cases cs with
    | nil => simp
    | cons c cs =>
      have hline : c ≠ '\n' := by rintro rfl; simp at hcontains
      have hreturn : c ≠ '\r' := by
        rintro rfl
        exact absurd (h _ List.mem_cons_self) (by decide)
      simp [hline, hreturn]

theorem not_mem_of_longestRun {c : Char} (h : longestRun c cs = 0) : c ∉ cs := fun hc =>
  absurd h (Nat.ne_of_gt (longestRun_pos hc 0 0))

theorem literal_chars (hcontrol : cs.any isControl = false) (hsingle : longestRun '\'' cs = 0)
    (hline : cs.contains '\n' = false) : ∀ c ∈ cs, c ≠ '\'' ∧ isForbidden c = false := by
  intro c hc
  have hc' : isControl c = false := by simpa using List.any_eq_false.1 hcontrol c hc
  refine ⟨?_, isForbidden_of_isControl hc' ?_⟩
  · rintro rfl
    exact not_mem_of_longestRun hsingle hc
  · rintro rfl
    simp [hc] at hline

theorem takeString?_stringText (s : String) (hrest : EndsString rest) :
    takeString? ((stringText s).toList ++ rest) = some (some (s.toList, rest)) := by
  unfold stringText
  dsimp only
  generalize s.toList = cs
  split_ifs with h₁ h₂ h₃ h₄ h₅
  · exact takeString?_basic cs hrest
  · simp only [Bool.and_eq_true, Bool.not_eq_true', decide_eq_true_eq] at h₂
    exact takeString?_literal (literal_chars h₂.1.1 h₂.1.2 h₂.2) hrest
  · exact takeString?_basicBlock cs hrest
  · simp only [Bool.and_eq_true, Bool.not_eq_true', decide_eq_true_eq] at h₄
    refine takeString?_literalBlock (fun c hc => ?_) h₄.2 hrest
    simpa using List.any_eq_false.1 h₄.1 c hc
  · exact takeString?_basicBlock cs hrest
  · exact takeString?_basic cs hrest

end Strings

end Blockwork.Toml
