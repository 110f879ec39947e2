import Blockwork.Proofs.Toml.Values
import Blockwork.Toml.Document

/-! The lines of a document that was printed: a key with a value, which is read as that definition
unless the key is written as a block or the value has too many levels, and a comment, which is passed
over unless a character in it is forbidden. -/

namespace Blockwork.Toml

/-- Whether a text is written as a block, which a value may be and a key not: it has a line feed,
or quotes or backslashes that neither of the short forms can hold. -/
def takesBlock (s : String) : Bool :=
  let cs := s.toList
  cs.contains '\n' || (!cs.any isControl && cs.contains '\'' && (cs.contains '\\' || cs.contains '"') &&
    ((!cs.contains '\\' && longestRun '"' cs ≤ 2) || longestRun '\'' cs ≤ 2))

/-! ### Keys -/

theorem longestRun_eq_zero_iff {c : Char} {cs : List Char} : longestRun c cs = 0 ↔ c ∉ cs := by
  refine ⟨not_mem_of_longestRun, fun h => ?_⟩
  show longestRun.go c 0 0 cs = 0
  induction cs with
  | nil => rfl
  | cons d cs ih =>
    obtain ⟨hd, hcs⟩ := not_or.1 (mt List.mem_cons.2 h)
    rw [longestRun.go, if_neg (Ne.symm hd)]
    exact ih hcs

section Keys

variable {name : String}

theorem takeLine?_stringText (h : takesBlock name = false) (rest : List Char) :
    takeLine? ((stringText name).toList ++ rest) = some (some (name.toList, rest)) := by
  unfold takesBlock at h
  unfold stringText
  dsimp only at h ⊢
  generalize name.toList = cs at h ⊢
  have hdouble := @longestRun_eq_zero_iff '"' cs
  have hsingle := @longestRun_eq_zero_iff '\'' cs
  split_ifs with h₁ h₂ h₃ h₄ h₅
  · exact takeLine?_basic cs rest
  · simp only [Bool.and_eq_true, Bool.not_eq_true', decide_eq_true_eq] at h₂
    exact takeLine?_literal (literal_chars h₂.1.1 h₂.1.2 h₂.2) rest
  · grind
  · grind
  · grind
  · exact takeLine?_basic cs rest

theorem exists_of_takesBlock (h : takesBlock name = true) : ∃ mark t, (mark = '"' ∨ mark = '\'') ∧
    (stringText name).toList = mark :: mark :: mark :: t := by
  unfold takesBlock at h
  unfold stringText
  dsimp only at h ⊢
  generalize name.toList = cs at h ⊢
  have hbasic : ∃ t, (basicBlock cs).toList = '"' :: '"' :: '"' :: t :=
    ⟨_, by simp [basicBlock, fence]; rfl⟩
  have hliteral : ∃ t, (literalBlock cs).toList = '\'' :: '\'' :: '\'' :: t :=
    ⟨_, by simp [literalBlock, fence]; rfl⟩
  have hdouble := @longestRun_eq_zero_iff '"' cs
  have hsingle := @longestRun_eq_zero_iff '\'' cs
  split_ifs with h₁ h₂ h₃ h₄ h₅
  · grind
  · grind
  · exact ⟨'"', hbasic.imp fun _ ht => ⟨.inl rfl, ht⟩⟩
  · exact ⟨'\'', hliteral.imp fun _ ht => ⟨.inr rfl, ht⟩⟩
  · exact ⟨'"', hbasic.imp fun _ ht => ⟨.inl rfl, ht⟩⟩
  · grind

theorem keyText_cases (name : String) :
    (keyText name = name ∧ name.toList ≠ [] ∧ (∀ c ∈ name.toList, isBareChar c = true) ∧
      takesBlock name = false) ∨ keyText name = stringText name := by
  unfold keyText
  split
  · rename_i h
    simp only [Bool.and_eq_true, Bool.not_eq_true', List.all_eq_true] at h
    have hline : '\n' ∉ name.toList := fun hc => absurd (h.2 _ hc) (by decide)
    have hquote : '\'' ∉ name.toList := fun hc => absurd (h.2 _ hc) (by decide)
    refine .inl ⟨rfl, fun hnil => ?_, h.2, by simp [takesBlock, hline, hquote]⟩
    simp [String.toList_eq_nil_iff.1 hnil] at h
  · exact .inr rfl

theorem exists_keyText (name : String) : ∃ c cs, (keyText name).toList = c :: cs ∧
    (isBareChar c = true ∨ c = '"' ∨ c = '\'') := by
  obtain ⟨h, hne, hbare, -⟩ | h := keyText_cases name <;> rw [h]
  · obtain ⟨c, cs, hcs⟩ := List.exists_cons_of_ne_nil hne
    exact ⟨c, cs, hcs, .inl (hbare c (by simp [hcs]))⟩
  · have hhead : (stringText name).toList.head? = some '"' ∨
        (stringText name).toList.head? = some '\'' := by
      unfold stringText
      dsimp only
      split_ifs <;> simp [basic, literal, basicBlock, literalBlock, fence]
    obtain hhead | hhead := hhead <;> obtain ⟨cs, hcs⟩ := List.head?_eq_some_iff.1 hhead
    · exact ⟨'"', cs, hcs, .inr (.inl rfl)⟩
    · exact ⟨'\'', cs, hcs, .inr (.inr rfl)⟩

theorem takeName?_keyText (h : takesBlock name = false) (rest : List Char) :
    takeName? ((keyText name).toList ++ ' ' :: rest) = some (name, ' ' :: rest) := by
  unfold takeName?
  obtain ⟨hkey, hne, hbare, -⟩ | hkey := keyText_cases name <;> rw [hkey]
  · have htake : (name.toList ++ ' ' :: rest).takeWhile isBareChar = name.toList := by
      rw [List.takeWhile_append_of_pos hbare]
      exact List.append_nil _
    have hdrop : (name.toList ++ ' ' :: rest).dropWhile isBareChar = ' ' :: rest := by
      rw [List.dropWhile_append_of_pos hbare]
      rfl
    have hline : takeLine? (name.toList ++ ' ' :: rest) = none := by
      obtain ⟨c, cs, hcs⟩ := List.exists_cons_of_ne_nil hne
      have hc : c ≠ '"' ∧ c ≠ '\'' := by
        have := hbare c (by simp [hcs])
        refine ⟨?_, ?_⟩ <;> rintro rfl <;> exact absurd this (by decide)
      rw [hcs, List.cons_append, takeLine?] <;> simp [hc]
    simp only [hline, htake, hdrop]
    simp [hne]
  · rw [takeLine?_stringText h]
    simp

end Keys

/-! ### Definitions -/

section Definitions

variable {name : String} {t : Toml}

def definition (name : String) (t : Toml) : List Char :=
  (keyText name).toList ++ ' ' :: '=' :: ' ' :: t.render.toList

theorem startsValue_definition (name : String) (t : Toml) : StartsValue (definition name t) := by
  obtain ⟨c, cs, hcs, hc⟩ := exists_keyText name
  rw [definition, hcs, List.cons_append]
  obtain hc | rfl | rfl := hc
  · refine ⟨?_, ?_, ?_, ?_, ?_, ?_⟩ <;> rintro rfl <;> exact absurd hc (by decide)
  · simp [StartsValue]
  · simp [StartsValue]

theorem takeKey?_keyText (h : takesBlock name = false) (rest : List Char) :
    takeKey? ((keyText name).toList ++ ' ' :: '=' :: rest) = some (name, [], '=' :: rest) := by
  unfold takeKey?
  rw [takeName?_keyText h]
  rfl

theorem skipBlanks_render (ht : t.IsPlain) (rest : List Char) :
    skipBlanks (' ' :: (t.render.toList ++ rest)) = t.render.toList ++ rest := by
  have hstart := (startsValue_render ht).append rest
  cases hcs : t.render.toList ++ rest with
  | nil => rw [hcs] at hstart; exact absurd hstart id
  | cons c cs =>
    rw [hcs] at hstart
    simp [skipBlanks, hstart.1, hstart.2.1]

theorem takeStatement?_definition (h : takesBlock name = false) (ht : t.IsPlain)
    (rest : List Char) : takeStatement? (definition name t ++ '\n' :: rest) =
      if t.levels < depthLimit then some (.define name [] t, '\n' :: rest) else none := by
  have hline : definition name t ++ '\n' :: rest =
      (keyText name).toList ++ ' ' :: '=' :: ' ' :: (t.render.toList ++ '\n' :: rest) := by
    simp [definition]
  have hkey := takeKey?_keyText h (' ' :: (t.render.toList ++ '\n' :: rest))
  obtain ⟨c, cs, hcs, hc⟩ := exists_keyText name
  have hopen : c ≠ '[' := by
    rintro rfl
    simp at hc
    exact absurd hc (by decide)
  have hend : EndsValue ('\n' :: rest) := .inr (.inr rfl)
  have hfuel : 2 * t.render.toList.length ≤ 2 * (t.render.toList ++ '\n' :: rest).length + 2 := by
    rw [List.length_append]
    omega
  have hroot : 0 < depthLimit := by decide
  rw [hcs, List.cons_append] at hkey
  rw [hline, hcs, List.cons_append, takeStatement?]
  · simp only [hkey, Option.bind_eq_bind, Option.bind_some, skipBlanks_render ht,
      takeValue?_render ht hend hfuel hroot, Nat.zero_add]
    split_ifs <;> rfl
  · simp [hopen]
  · simp [hopen]

/-- Behind the first two quotes of a block the key is over. -/
theorem takeStatement?_block (h : takesBlock name = true) (rest : List Char) :
    takeStatement? (definition name t ++ rest) = none := by
  obtain ⟨mark, s, hmark, hs⟩ := exists_of_takesBlock h
  have hkey : keyText name = stringText name := by
    obtain ⟨-, -, -, hkey⟩ | hkey := keyText_cases name
    · rw [h] at hkey
      cases hkey
    · exact hkey
  rw [definition, hkey, hs]
  obtain rfl | rfl := hmark <;> rfl

end Definitions

/-! ### Comments -/

section Comments

variable {cs : List Char}

theorem skipSpace_comment (h : ∀ c ∈ cs, isForbidden c = false) (rest : List Char) :
    skipSpace true (cs ++ '\n' :: rest) = skipSpace false rest := by
  induction cs with
  | nil => rfl
  | cons c cs ih =>
    have hc := h c List.mem_cons_self
    have hreturn : c ≠ '\r' := by rintro rfl; cases hc
    have hline : c ≠ '\n' := by rintro rfl; cases hc
    rw [List.cons_append, skipSpace]
    · simp [hline, hc, ih fun c hc => h c (List.mem_cons_of_mem _ hc)]
    · simp [hreturn]

theorem exists_skipSpace_delete (h : ∀ c ∈ cs, isForbidden c = true → c = '\x7f') (hcs : '\x7f' ∈ cs)
    (rest : List Char) : ∃ t, skipSpace true (cs ++ rest) = '\x7f' :: t := by
  induction cs with
  | nil => cases hcs
  | cons c cs ih =>
    by_cases hc : c = '\x7f'
    · exact ⟨cs ++ rest, by rw [hc]; rfl⟩
    · have hplain : isForbidden c = false := Bool.eq_false_iff.2 fun hf => hc (h c List.mem_cons_self hf)
      have hreturn : c ≠ '\r' := by rintro rfl; cases hplain
      have hline : c ≠ '\n' := by rintro rfl; cases hplain
      obtain ⟨t, ht⟩ := ih (fun c hc => h c (List.mem_cons_of_mem _ hc))
        ((List.mem_cons.1 hcs).resolve_left (Ne.symm hc))
      refine ⟨t, ?_⟩
      rw [List.cons_append, skipSpace]
      · simp [hline, hplain, ht]
      · simp [hreturn]

theorem takeStatement?_delete (cs : List Char) : takeStatement? ('\x7f' :: cs) = none := rfl

end Comments

end Blockwork.Toml
