import Blockwork.Proofs.Text.Quoted
import Blockwork.Target.Print

/-! The tokens of a written program. At each place the longest token is taken, so that what follows
a token decides where it ends. -/

namespace Blockwork.Target

inductive Token where
  | word (name : String)
  | numeral (digits : String)
  | text (content : String)
  | sign (mark : String)
deriving Repr, DecidableEq

def isWordStart (c : Char) : Bool := c.isAlpha || c = '_' || c = '$'

def isWordPart (c : Char) : Bool := isWordChar c || c = '$'

/-- All signs of the language, the longest first. -/
def signs : List String := [
  ">>>=", "...", "===", "!==", "**=", "<<=", ">>=", ">>>", "&&=", "||=", "??=", "=>", "==", "!=",
  "<=", ">=", "&&", "||", "??", "?.", "++", "--", "+=", "-=", "*=", "/=", "%=", "&=", "|=", "^=",
  "<<", ">>", "**", "\x7b", "\x7d", "(", ")", "[", "]", ";", ",", "<", ">", "+", "-", "*", "/",
  "%", "&", "|", "^", "!", "~", "?", ":", "=", "."]

def takeNumeral (cs : List Char) : List Char × List Char :=
  match cs.dropWhile Char.isDigit with
  | '.' :: rest =>
    (cs.takeWhile Char.isDigit ++ '.' :: rest.takeWhile Char.isDigit, rest.dropWhile Char.isDigit)
  | rest => (cs.takeWhile Char.isDigit, rest)

def takeSign? (cs : List Char) : Option (Token × List Char) :=
  (signs.find? (·.toList.isPrefixOf cs)).map fun s => (.sign s, cs.drop s.toList.length)

def takeToken? : List Char → Option (Token × List Char)
  | [] => none
  | c :: cs =>
    if isWordStart c then
      some (.word (String.ofList (c :: cs.takeWhile isWordPart)), cs.dropWhile isWordPart)
    else if c.isDigit then
      some (.numeral (String.ofList (takeNumeral (c :: cs)).1), (takeNumeral (c :: cs)).2)
    else if c = '"' then
      match Json.scanString none 0 cs with
      | .closed (.ok content) _ rest => some (.text (String.ofList content), rest)
      | _ => none
    else takeSign? (c :: cs)

theorem length_dropWhile_le {α : Type} (p : α → Bool) (as : List α) :
    (as.dropWhile p).length ≤ as.length :=
  (List.dropWhile_sublist p).length_le

theorem length_takeNumeral {c : Char} {cs : List Char} (hc : c.isDigit = true) :
    (takeNumeral (c :: cs)).2.length ≤ cs.length := by
  have hdrop : (c :: cs).dropWhile Char.isDigit = cs.dropWhile Char.isDigit :=
    List.dropWhile_cons_of_pos hc
  have hlength := length_dropWhile_le Char.isDigit cs
  rw [takeNumeral, hdrop]
  split
  · rename_i rest hrest
    have := length_dropWhile_le Char.isDigit rest
    rw [hrest, List.length_cons] at hlength
    exact Nat.le_trans this (by omega)
  · exact hlength

theorem length_takeSign? {cs rest : List Char} {t : Token} (h : takeSign? cs = some (t, rest)) :
    rest.length < cs.length := by
  have hsigns : ∀ s ∈ signs, 0 < s.toList.length := by decide
  obtain ⟨s, hs, hst⟩ := Option.map_eq_some_iff.1 h
  have hfound := List.find?_some hs
  have hbegins : s.toList <+: cs := List.isPrefixOf_iff_prefix.1 hfound
  have hpos := hsigns s (List.mem_of_find?_eq_some hs)
  have hle := hbegins.length_le
  obtain ⟨-, rfl⟩ := Prod.mk.inj hst
  rw [List.length_drop]
  omega

theorem length_takeToken? {cs rest : List Char} {t : Token} (h : takeToken? cs = some (t, rest)) :
    rest.length < cs.length := by
  cases cs with
  | nil => exact absurd h (by simp [takeToken?])
  | cons c cs =>
    rw [takeToken?] at h
    split at h
    · obtain ⟨-, rfl⟩ := Prod.mk.inj (Option.some.inj h)
      exact Nat.lt_succ_of_le (length_dropWhile_le ..)
    · split at h
      · obtain ⟨-, rfl⟩ := Prod.mk.inj (Option.some.inj h)
        exact Nat.lt_succ_of_le (length_takeNumeral ‹_›)
      · split at h
        · split at h
          · rename_i hscan
            have hlength := Json.length_rest_scanString none 0 cs
            obtain ⟨-, rfl⟩ := Prod.mk.inj (Option.some.inj h)
            rw [hscan] at hlength
            exact Nat.lt_succ_of_le hlength
          · exact absurd h (by simp)
        · exact length_takeSign? h

def tokens : List Char → Option (List Token)
  | [] => some []
  | c :: cs =>
    if Json.isSpace c then tokens cs
    else match _h : takeToken? (c :: cs) with
      | none => none
      | some (t, rest) => (tokens rest).map (t :: ·)
termination_by cs => cs.length
decreasing_by
  · simp
  · exact length_takeToken? ‹_›

theorem tokens_space {c : Char} (h : Json.isSpace c = true) (cs : List Char) :
    tokens (c :: cs) = tokens cs := by
  rw [tokens, if_pos h]

theorem takeToken?_space {c : Char} (h : Json.isSpace c = true) (cs : List Char) :
    takeToken? (c :: cs) = none := by
  have hc : c = ' ' ∨ c = '\n' ∨ c = '\t' ∨ c = '\r' := by
    simpa [Json.isSpace, or_assoc] using h
  rcases hc with rfl | rfl | rfl | rfl <;> rfl

theorem tokens_token {cs rest : List Char} {t : Token} (h : takeToken? cs = some (t, rest)) :
    tokens cs = (tokens rest).map (t :: ·) := by
  cases cs with
  | nil => exact absurd h (by simp [takeToken?])
  | cons c cs =>
    have hspace : ¬ Json.isSpace c = true := by
      intro hspace
      rw [takeToken?_space hspace] at h
      exact absurd h (by simp)
    rw [tokens, if_neg hspace]
    split
    · rename_i hnone
      rw [h] at hnone
      exact absurd hnone (by simp)
    · rename_i hsome
      rw [h] at hsome
      obtain ⟨rfl, rfl⟩ := Prod.mk.inj (Option.some.inj hsome)
      rfl

/-! ### Pieces of a text -/

def Lexes (cs : List Char) (ts : List Token) (rest : List Char) : Prop :=
  tokens (cs ++ rest) = (tokens rest).map (ts ++ ·)

def Apart (rest : List Char) : Prop := ∀ c ∈ rest.head?, isWordPart c = false

def Clear (rest : List Char) : Prop := ∀ c ∈ rest.head?, isWordPart c = false ∧ c ≠ '.'

def goesOn (s : String) (c : Char) : Bool :=
  signs.any fun longer => (s.toList ++ [c]).isPrefixOf longer.toList

def isWord (s : String) : Bool :=
  match s.toList with
  | [] => false
  | c :: cs => isWordStart c && cs.all isWordPart

namespace Lexes

variable {as bs rest : List Char} {ts us : List Token}

theorem nil : Lexes [] [] rest := by simp [Lexes]

theorem append (h : Lexes as ts (bs ++ rest)) (h' : Lexes bs us rest) :
    Lexes (as ++ bs) (ts ++ us) rest := by
  unfold Lexes at *
  rw [List.append_assoc, h, h', Option.map_map]
  refine congrArg (Option.map · (tokens rest)) ?_
  funext vs
  exact (List.append_assoc ts us vs).symm

theorem space {c : Char} (h : Json.isSpace c = true) : Lexes [c] [] rest := by
  show tokens (c :: rest) = (tokens rest).map id
  rw [tokens_space h, Option.map_id_fun, id]

theorem skip {c : Char} (hc : Json.isSpace c = true) (h : Lexes bs ts rest) :
    Lexes (c :: bs) ts rest :=
  (space hc).append h

theorem token {t : Token} (h : takeToken? (as ++ rest) = some (t, rest)) : Lexes as [t] rest :=
  tokens_token h

theorem takeWhile_append_of_stop {p : Char → Bool} {cs rest : List Char} (h : cs.all p = true)
    (hrest : ∀ c ∈ rest.head?, p c = false) :
    (cs ++ rest).takeWhile p = cs ∧ (cs ++ rest).dropWhile p = rest := by
  have hall : ∀ c ∈ cs, p c = true := by simpa using h
  have hstop : rest.takeWhile p = [] ∧ rest.dropWhile p = rest := by
    cases rest with
    | nil => exact ⟨rfl, rfl⟩
    | cons c rest =>
      have hc : p c = false := hrest c rfl
      simp [hc]
  rw [List.takeWhile_append_of_pos hall, List.dropWhile_append_of_pos hall, hstop.1, hstop.2]
  simp

theorem word {s : String} (h : isWord s = true) (hrest : Apart rest) :
    Lexes s.toList [.word s] rest := by
  unfold isWord at h
  split at h
  · exact absurd h (by simp)
  · rename_i c cs hs
    obtain ⟨hc, hcs⟩ : isWordStart c = true ∧ cs.all isWordPart = true := by simpa using h
    obtain ⟨htake, hdrop⟩ := takeWhile_append_of_stop hcs hrest
    refine token ?_
    rw [hs, List.cons_append, takeToken?, if_pos hc, htake, hdrop, ← hs, String.ofList_toList]

theorem text (s : String) : Lexes (Text.json.quote s).toList [.text s] rest := by
  obtain ⟨stop, hscan⟩ := Text.scanString_chars 0 rest s.toList
  refine token ?_
  rw [Text.Quoting.quote, String.toList_ofList, List.cons_append, List.cons_append,
    List.append_assoc]
  show (match Json.scanString none 0 (Text.json.chars s.toList ++ '"' :: rest) with
    | .closed (.ok content) _ rest => some (Token.text (String.ofList content), rest)
    | _ => none) = _
  rw [hscan]
  show some (Token.text (String.ofList s.toList), rest) = _
  rw [String.ofList_toList]

theorem signs_sorted : signs.Pairwise fun s s' => s'.toList.length ≤ s.toList.length := by decide

theorem signs_head : ∀ s ∈ signs,
    s.toList.head?.any (fun c => !isWordStart c && !c.isDigit && c ≠ '"') = true := by
  decide

/-- Of two signs that a text begins with, the shorter one goes on to the longer one. -/
theorem goesOn_of_prefix {s longer : String} (hlonger : longer ∈ signs) (hne : longer ≠ s)
    (hlength : s.toList.length ≤ longer.toList.length)
    (hbegins : longer.toList <+: s.toList ++ rest) : ∃ c ∈ rest.head?, goesOn s c = true := by
  have hs : s.toList <+: longer.toList :=
    List.prefix_of_prefix_length_le (List.prefix_append ..) hbegins hlength
  obtain ⟨more, hmore⟩ := hs
  rw [← hmore, List.prefix_append_right_inj] at hbegins
  cases more with
  | nil => exact absurd (String.toList_inj.1 (by simpa using hmore.symm)) hne
  | cons c more =>
    obtain ⟨after, rfl⟩ := hbegins
    refine ⟨c, by simp, List.any_eq_true.2 ⟨longer, hlonger, ?_⟩⟩
    exact List.isPrefixOf_iff_prefix.2 ⟨more, by simp [← hmore]⟩

theorem sign {s : String} (hs : s ∈ signs) (hrest : ∀ c ∈ rest.head?, goesOn s c = false) :
    Lexes s.toList [.sign s] rest := by
  have hsorted := signs_sorted
  obtain ⟨before, after, hsplit, hfirst⟩ := List.eq_append_cons_of_mem hs
  have hfind : signs.find? (·.toList.isPrefixOf (s.toList ++ rest)) = some s := by
    refine List.find?_eq_some_iff_append.2 ⟨?_, before, after, hsplit, ?_⟩
    · exact List.isPrefixOf_iff_prefix.2 (List.prefix_append ..)
    · intro longer hlonger
      rw [hsplit] at hsorted
      have hne : longer ≠ s := fun h => hfirst (h ▸ hlonger)
      have hlength := (List.pairwise_append.1 hsorted).2.2 _ hlonger s (by simp)
      rw [Bool.not_eq_true', Bool.eq_false_iff]
      intro hbegins
      obtain ⟨c, hc, hgoes⟩ := goesOn_of_prefix (hsplit ▸ List.mem_append_left _ hlonger) hne hlength
        (List.isPrefixOf_iff_prefix.1 hbegins)
      rw [hrest c hc] at hgoes
      exact absurd hgoes (by decide)
  have hhead := signs_head s hs
  refine token ?_
  have htake : takeSign? (s.toList ++ rest) = some (.sign s, rest) := by
    rw [takeSign?, hfind, Option.map_some, List.drop_left]
  cases hlist : s.toList with
  | nil => exact absurd hhead (by simp [hlist])
  | cons c cs =>
    obtain ⟨⟨hword, hdigit⟩, hquote⟩ :
        (isWordStart c = false ∧ c.isDigit = false) ∧ c ≠ '"' := by simpa [hlist] using hhead
    rw [hlist, List.cons_append] at htake
    rw [List.cons_append, takeToken?, hword, hdigit, if_neg Bool.false_ne_true,
      if_neg Bool.false_ne_true, if_neg hquote, htake]

end Lexes

end Blockwork.Target
