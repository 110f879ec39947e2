import Blockwork.Proofs.Json.Lexemes

/-! The grammar of JSON texts. The tree of a text has every number and every string in its own spelling;
the white space between the tokens is not part of it. Each scalar of the grammar is scanned as one
lexeme, and what it denotes does not depend on where it stands. -/

namespace Blockwork.Json

/-! ### The texts of the grammar -/

structure IsDigits (cs : List Char) : Prop where
  nonempty : cs ≠ []
  digits : ∀ c ∈ cs, c.isDigit = true

theorem isDigits_of_all {cs : List Char} (hne : cs ≠ []) (h : cs.all Char.isDigit = true) :
    IsDigits cs := ⟨hne, List.all_eq_true.1 h⟩

inductive IsFraction : List Char → Prop
  | none : IsFraction []
  | some {digits : List Char} (h : IsDigits digits) : IsFraction ('.' :: digits)

inductive IsExponent : List Char → Prop
  | none : IsExponent []
  | some {mark : Char} {sign digits : List Char} (hmark : mark = 'e' ∨ mark = 'E')
      (hsign : sign = [] ∨ sign = ['+'] ∨ sign = ['-']) (h : IsDigits digits) :
    IsExponent (mark :: (sign ++ digits))

/-- A zero leads no other digits. -/
inductive IsNumber : List Char → Prop
  | mk {sign whole fraction exponent : List Char} (hsign : sign = [] ∨ sign = ['-'])
      (hwhole : IsDigits whole) (hzero : whole.head? = some '0' → whole.length = 1)
      (hfraction : IsFraction fraction) (hexponent : IsExponent exponent) :
    IsNumber (sign ++ (whole ++ (fraction ++ exponent)))

inductive IsWord : List Char → Prop
  | null : IsWord ['n', 'u', 'l', 'l']
  | true : IsWord ['t', 'r', 'u', 'e']
  | false : IsWord ['f', 'a', 'l', 's', 'e']
  | number {cs : List Char} (h : IsNumber cs) : IsWord cs

/-- What may stand between the quotes of a string. An escape by number may be half of a pair. -/
inductive IsQuoted : List Char → Prop
  | nil : IsQuoted []
  | plain {c : Char} {cs : List Char} (hc : 32 ≤ c.toNat) (hquote : c ≠ '"') (hslash : c ≠ '\\')
      (h : IsQuoted cs) : IsQuoted (c :: cs)
  | letter {c : Char} {cs : List Char} (hc : (escapeLetter? c).isSome = Bool.true) (h : IsQuoted cs) :
    IsQuoted ('\\' :: c :: cs)
  | unit {a b c d : Char} {cs : List Char} (hunit : (hexUnit? a b c d).isSome = Bool.true)
      (h : IsQuoted cs) : IsQuoted ('\\' :: 'u' :: a :: b :: c :: d :: cs)

theorem isQuoted_of_plain {cs : List Char}
    (h : (cs.all fun c => 32 ≤ c.toNat && c != '"' && c != '\\') = Bool.true) : IsQuoted cs := by
  induction cs with
  | nil => exact .nil
  | cons c cs ih =>
    rw [List.all_cons, Bool.and_eq_true] at h
    obtain ⟨⟨hc, hquote⟩, hslash⟩ : (32 ≤ c.toNat ∧ c ≠ '"') ∧ c ≠ '\\' := by simpa using h.1
    exact .plain hc hquote hslash (ih h.2)

structure Word where
  text : List Char
  valid : IsWord text

structure Quoted where
  content : List Char
  valid : IsQuoted content

inductive Tree where
  | word (w : Word)
  | string (q : Quoted)
  | array (items : List Tree)
  | object (members : List (Quoted × Tree))

def IsBlank (cs : List Char) : Prop := ∀ c ∈ cs, isSpace c = true

def Quoted.text (q : Quoted) : List Char := '"' :: (q.content ++ ['"'])

mutual

/-- The text is the tree with white space between its tokens. -/
inductive Tree.Spelled : Tree → List Char → Prop
  | word (w : Word) : Tree.Spelled (.word w) w.text
  | string (q : Quoted) : Tree.Spelled (.string q) q.text
  | emptyArray {blank : List Char} (hblank : IsBlank blank) :
    Tree.Spelled (.array []) ('[' :: (blank ++ [']']))
  | array {items : List Tree} {body : List Char} (h : ItemsSpelled items body) :
    Tree.Spelled (.array items) ('[' :: (body ++ [']']))
  | emptyObject {blank : List Char} (hblank : IsBlank blank) :
    Tree.Spelled (.object []) ('\x7b' :: (blank ++ ['\x7d']))
  | object {members : List (Quoted × Tree)} {body : List Char} (h : MembersSpelled members body) :
    Tree.Spelled (.object members) ('\x7b' :: (body ++ ['\x7d']))

inductive ItemsSpelled : List Tree → List Char → Prop
  | last {item : Tree} {before cs after : List Char} (hbefore : IsBlank before)
      (h : Tree.Spelled item cs) (hafter : IsBlank after) :
    ItemsSpelled [item] (before ++ (cs ++ after))
  | cons {item : Tree} {before cs after body : List Char} {items : List Tree}
      (hbefore : IsBlank before) (h : Tree.Spelled item cs) (hafter : IsBlank after)
      (hrest : ItemsSpelled items body) :
    ItemsSpelled (item :: items) (before ++ (cs ++ (after ++ ',' :: body)))

inductive MembersSpelled : List (Quoted × Tree) → List Char → Prop
  | last {key : Quoted} {value : Tree} {member : List Char} (h : MemberSpelled key value member) :
    MembersSpelled [(key, value)] member
  | cons {key : Quoted} {value : Tree} {member body : List Char} {members : List (Quoted × Tree)}
      (h : MemberSpelled key value member) (hrest : MembersSpelled members body) :
    MembersSpelled ((key, value) :: members) (member ++ ',' :: body)

inductive MemberSpelled : Quoted → Tree → List Char → Prop
  | mk {key : Quoted} {value : Tree} {before middle between cs after : List Char}
      (hbefore : IsBlank before) (hmiddle : IsBlank middle) (hbetween : IsBlank between)
      (h : Tree.Spelled value cs) (hafter : IsBlank after) :
    MemberSpelled key value
      (before ++ (key.text ++ (middle ++ ':' :: (between ++ (cs ++ after)))))

end

/-- The source holds the value, and nothing but white space around it. -/
def Tree.IsOf (t : Tree) (source : String) : Prop :=
  ∃ before cs after, IsBlank before ∧ t.Spelled cs ∧ IsBlank after ∧
    source.toList = before ++ (cs ++ after)

/-! ### Blanks -/

theorem lex_blank {blank : List Char} (h : IsBlank blank) (offset : Nat) (rest : List Char) :
    lex offset (blank ++ rest) = lex (offset + blank.length) rest := by
  induction blank generalizing offset with
  | nil => rfl
  | cons c blank ih =>
    rw [IsBlank, List.forall_mem_cons] at h
    rw [List.cons_append, lex, if_pos h.1, ih h.2, List.length_cons, Nat.add_assoc, Nat.add_comm 1]

/-! ### Strings -/

def StringScan.Finds (content : Option (List Char)) (rest : List Char) (s : StringScan) : Prop :=
  ∃ result stop, s = .closed result stop rest ∧ result.toOption = content

namespace StringScan.Finds

variable {content : Option (List Char)} {rest : List Char} {s : StringScan}

theorem push (h : s.Finds content rest) (c : Char) :
    (s.push c).Finds (content.map (c :: ·)) rest := by
  obtain ⟨result, stop, rfl, rfl⟩ := h
  exact ⟨_, stop, rfl, by cases result <;> rfl⟩

theorem fail (h : s.Finds content rest) (f : Fault) : (s.fail f).Finds none rest := by
  obtain ⟨result, stop, rfl, -⟩ := h
  exact ⟨_, stop, rfl, rfl⟩

theorem unpaired (h : s.Finds content rest) (high : Option Nat) (f : Fault) :
    (s.unpaired high f).Finds (if high.isSome then none else content) rest := by
  unfold StringScan.unpaired
  split
  · exact h.fail f
  · exact h

end StringScan.Finds

/-- What becomes of the scan after a low half: the character of the pair with the high half before
it, or a fault without one. -/
def StringScan.lowHalf (s : StringScan) (unit offset : Nat) : Option Nat → StringScan
  | some high => s.push (pairChar high unit)
  | none => s.fail ⟨.loneSurrogate, offset⟩

theorem StringScan.Finds.lowHalf {content : Option (List Char)} {rest : List Char} {s : StringScan}
    (h : s.Finds content rest) (unit offset : Nat) (high : Option Nat) :
    (s.lowHalf unit offset high).Finds
      (high.bind fun high => content.map (pairChar high unit :: ·)) rest := by
  cases high with
  | none => exact h.fail _
  | some high => exact h.push _

/-- The content of a string does not depend on its place or on what follows. -/
theorem scanString_quoted {cs : List Char} (h : IsQuoted cs) (high : Option Nat) :
    ∃ content, ∀ offset rest, (scanString high offset (cs ++ '"' :: rest)).Finds content rest := by
  induction h generalizing high with
  | nil =>
    refine ⟨if high.isSome then none else some [], fun offset rest => ?_⟩
    rw [List.nil_append, scanString]
    exact StringScan.Finds.unpaired ⟨.ok [], offset + 1, rfl, rfl⟩ high _
  | @plain c cs hc hquote hslash _ ih =>
    obtain ⟨content, ih⟩ := ih none
    refine ⟨if high.isSome then none else content.map (c :: ·), fun offset rest => ?_⟩
    rw [List.cons_append, scanString, if_neg (Nat.not_lt.2 hc)]
    · exact ((ih _ rest).push c).unpaired high _
    · exact hquote
    · exact fun h _ => hslash h
    · exact fun _ _ _ _ _ h _ => hslash h
    · exact fun _ _ h _ => hslash h
  | @letter c cs hc _ ih =>
    obtain ⟨content, ih⟩ := ih none
    obtain ⟨letter, hletter⟩ := Option.isSome_iff_exists.1 hc
    have hu : c ≠ 'u' := by
      rintro rfl
      exact absurd hletter (Option.some_ne_none letter).symm
    refine ⟨if high.isSome then none else content.map (letter :: ·), fun offset rest => ?_⟩
    rw [List.cons_append, List.cons_append, scanString, if_neg hu, hletter]
    · exact ((ih _ rest).push letter).unpaired high _
    · exact fun _ _ _ _ _ h _ => hu h
  | @unit a b c d cs hunit _ ih =>
    obtain ⟨unit, hunit⟩ := Option.isSome_iff_exists.1 hunit
    -- a high half changes how the next character is read, so the rest is scanned both ways
    obtain ⟨alone, halone⟩ := ih none
    obtain ⟨paired, hpaired⟩ := ih (some unit)
    have hscan : ∀ offset rest, scanString high offset
        ('\\' :: 'u' :: a :: b :: c :: d :: cs ++ '"' :: rest) =
          if isLowSurrogate unit then
            (scanString none (offset + 6) (cs ++ '"' :: rest)).lowHalf unit (offset + 6) high
          else if isHighSurrogate unit then
            (scanString (some unit) (offset + 6) (cs ++ '"' :: rest)).unpaired high
              ⟨.loneSurrogate, offset + 6⟩
          else ((scanString none (offset + 6) (cs ++ '"' :: rest)).push (Char.ofNat unit)).unpaired
            high ⟨.loneSurrogate, offset + 6⟩ := by
      intro offset rest
      simp only [List.cons_append]
      rewrite [scanString, hunit]
      rfl
    simp only [hscan]
    split
    · exact ⟨_, fun offset rest => (halone _ rest).lowHalf unit _ high⟩
    · split
      · exact ⟨_, fun offset rest => (hpaired _ rest).unpaired high _⟩
      · exact ⟨_, fun offset rest => ((halone _ rest).push _).unpaired high _⟩

/-- The text that the string denotes. A surrogate without its other half denotes none. -/
def Quoted.denoted? (q : Quoted) : Option String :=
  match scanString none 0 (q.content ++ ['"']) with
  | .closed content _ _ => content.toOption.map String.ofList
  | .broken _ _ => none

theorem lex_quoted (q : Quoted) (offset : Nat) (rest : List Char) :
    ∃ content stop, lex offset (q.text ++ rest) = ⟨offset, stop, .string content⟩ :: lex stop rest ∧
      content.toOption = q.denoted? := by
  obtain ⟨content, hcontent⟩ := scanString_quoted q.valid none
  obtain ⟨result, stop, hscan, hresult⟩ := hcontent (offset + 1) rest
  obtain ⟨result₀, stop₀, hscan₀, hresult₀⟩ := hcontent 0 []
  refine ⟨result.map String.ofList, stop, ?_, ?_⟩
  · have htext : q.text ++ rest = '"' :: (q.content ++ '"' :: rest) := by simp [Quoted.text]
    have hread : TokenScan.read offset '"' (q.content ++ '"' :: rest) =
        TokenScan.ofString offset (scanString none (offset + 1) (q.content ++ '"' :: rest)) := rfl
    rw [htext, lex_cons offset rfl, hread, hscan]
    rfl
  · rw [Quoted.denoted?, hscan₀]
    show _ = result₀.toOption.map String.ofList
    rw [hresult₀, ← hresult]
    cases result <;> rfl

/-! ### Numbers -/

def EndsNumber (rest : List Char) : Prop :=
  ∀ c ∈ rest.head?, c.isDigit = false ∧ c ≠ '.' ∧ c ≠ 'e' ∧ c ≠ 'E'

theorem span_digits {digits : List Char} (h : ∀ c ∈ digits, c.isDigit = true) {rest : List Char}
    (hrest : ∀ c ∈ rest.head?, c.isDigit = false) :
    (digits ++ rest).takeWhile Char.isDigit = digits ∧
      (digits ++ rest).dropWhile Char.isDigit = rest := by
  have hstop : rest.takeWhile Char.isDigit = [] ∧ rest.dropWhile Char.isDigit = rest := by
    cases rest with
    | nil => exact ⟨rfl, rfl⟩
    | cons c rest =>
      have hc : ¬ c.isDigit = true := by rw [hrest c rfl]; exact Bool.false_ne_true
      exact ⟨List.takeWhile_cons_of_neg hc, List.dropWhile_cons_of_neg hc⟩
  rw [List.takeWhile_append_of_pos h, List.dropWhile_append_of_pos h, hstop.1, hstop.2,
    List.append_nil]
  exact ⟨rfl, rfl⟩

def NumberScan.Takes (p : NumberParts) (rest : List Char) (s : NumberScan) : Prop :=
  ∃ stop, s = .closed (p.value stop) stop rest

theorem scanExponentDigits_digits {digits : List Char} (h : IsDigits digits) (p : NumberParts)
    (negative : Bool) (offset : Nat) {rest : List Char} (hrest : EndsNumber rest) :
    (scanExponentDigits p negative offset (digits ++ rest)).Takes
      { p with exponentNegative := negative, exponent := digits } rest := by
  obtain ⟨htake, hdrop⟩ := span_digits h.digits fun c hc => (hrest c hc).1
  unfold scanExponentDigits
  simp only [htake, hdrop, List.isEmpty_iff, h.nonempty, ↓reduceIte]
  exact ⟨_, rfl⟩

theorem scanExponent_marked {mark : Char} {sign digits : List Char} (hmark : mark = 'e' ∨ mark = 'E')
    (hsign : sign = [] ∨ sign = ['+'] ∨ sign = ['-']) (h : IsDigits digits) (p : NumberParts)
    (offset : Nat) (rest : List Char) :
    scanExponent p offset (mark :: (sign ++ (digits ++ rest))) =
      scanExponentDigits p (sign = ['-']) (offset + 1 + sign.length) (digits ++ rest) := by
  rcases hsign with rfl | rfl | rfl
  · obtain ⟨d, ds, rfl⟩ := List.exists_cons_of_ne_nil h.nonempty
    have hd : d.isDigit = true := h.digits d List.mem_cons_self
    have hplus : d ≠ '+' := by rintro rfl; exact absurd hd (by decide)
    have hminus : d ≠ '-' := by rintro rfl; exact absurd hd (by decide)
    rcases hmark with rfl | rfl <;> (unfold scanExponent; simp [hplus, hminus])
  · rcases hmark with rfl | rfl <;> rfl
  · rcases hmark with rfl | rfl <;> rfl

theorem scanExponent_exponent {cs : List Char} (h : IsExponent cs) (p : NumberParts) :
    ∃ p', ∀ offset rest, EndsNumber rest → (scanExponent p offset (cs ++ rest)).Takes p' rest := by
  cases h with
  | none =>
    refine ⟨p, fun offset rest hrest => ⟨offset, ?_⟩⟩
    unfold scanExponent
    rw [List.nil_append]
    split <;> first | rfl | exact absurd rfl (hrest _ rfl).2.2.1 | exact absurd rfl (hrest _ rfl).2.2.2
  | @some mark sign digits hmark hsign hdigits =>
    refine ⟨{ p with exponentNegative := sign = ['-'], exponent := digits }, fun offset rest hrest => ?_⟩
    rw [List.cons_append, List.append_assoc, scanExponent_marked hmark hsign hdigits]
    exact scanExponentDigits_digits hdigits p _ _ hrest

theorem head_exponent {cs : List Char} (h : IsExponent cs) {rest : List Char}
    (hrest : EndsNumber rest) : ∀ c ∈ (cs ++ rest).head?, c.isDigit = false ∧ c ≠ '.' := by
  cases h with
  | none => exact fun c hc => ⟨(hrest c hc).1, (hrest c hc).2.1⟩
  | some hmark =>
    intro c hc
    obtain rfl := Option.some.inj hc
    rcases hmark with rfl | rfl <;> decide

theorem head_fraction {cs : List Char} (h : IsFraction cs) {rest : List Char}
    (hrest : ∀ c ∈ rest.head?, c.isDigit = false) : ∀ c ∈ (cs ++ rest).head?, c.isDigit = false := by
  cases h with
  | none => exact hrest
  | some =>
    intro c hc
    obtain rfl := Option.some.inj hc
    decide

theorem scanFraction_fraction {fraction exponent : List Char} (h : IsFraction fraction)
    (hexponent : IsExponent exponent) (p : NumberParts) : ∃ p', ∀ offset rest, EndsNumber rest →
      (scanFraction p offset (fraction ++ (exponent ++ rest))).Takes p' rest := by
  cases h with
  | none =>
    obtain ⟨p', hscan⟩ := scanExponent_exponent hexponent p
    refine ⟨p', fun offset rest hrest => ?_⟩
    have hhead := head_exponent hexponent hrest
    unfold scanFraction
    rw [List.nil_append]
    split
    · rename_i heq
      exact absurd rfl (hhead '.' (by rw [heq]; rfl)).2
    · exact hscan offset rest hrest
  | @some digits hdigits =>
    obtain ⟨p', hscan⟩ := scanExponent_exponent hexponent { p with fraction := digits }
    refine ⟨p', fun offset rest hrest => ?_⟩
    obtain ⟨htake, hdrop⟩ := span_digits hdigits.digits fun c hc =>
      (head_exponent hexponent hrest c hc).1
    unfold scanFraction
    simp only [List.cons_append, htake, hdrop, List.isEmpty_iff, hdigits.nonempty, ↓reduceIte]
    exact hscan _ rest hrest

theorem scanWhole_whole {whole fraction exponent : List Char} (hwhole : IsDigits whole)
    (hzero : whole.head? = some '0' → whole.length = 1) (hfraction : IsFraction fraction)
    (hexponent : IsExponent exponent) (negative : Bool) : ∃ p, ∀ offset rest, EndsNumber rest →
      (scanWhole negative offset (whole ++ (fraction ++ (exponent ++ rest)))).Takes p rest := by
  obtain ⟨p, hscan⟩ := scanFraction_fraction hfraction hexponent ⟨negative, whole, [], false, []⟩
  refine ⟨p, fun offset rest hrest => ?_⟩
  obtain ⟨htake, hdrop⟩ := span_digits hwhole.digits <|
    head_fraction hfraction fun c hc => (head_exponent hexponent hrest c hc).1
  have hlone : ¬ (whole.head? = some '0' && whole.length > 1) = true := by
    intro h
    obtain ⟨hhead, hlength⟩ : whole.head? = some '0' ∧ 1 < whole.length := by simpa using h
    exact absurd (hzero hhead) hlength.ne'
  unfold scanWhole
  simp only [htake, hdrop, List.isEmpty_iff, hwhole.nonempty, ↓reduceIte, if_neg hlone]
  exact hscan _ rest hrest

theorem toOption_value (p : NumberParts) (stop stop' : Nat) :
    (p.value stop).toOption = (p.value stop').toOption := by
  unfold NumberParts.value
  dsimp only
  split
  · rfl
  · split
    · rfl
    · split
      · split <;> rfl
      · split <;> rfl

theorem read_number {cs : List Char} (h : IsNumber cs) : ∃ p : NumberParts, ∀ offset rest,
    EndsNumber rest → ∃ c tail stop, cs ++ rest = c :: tail ∧ isSpace c = false ∧
      TokenScan.read offset c tail = ⟨⟨offset, stop, .scalar (p.value stop)⟩, rest⟩ := by
  obtain @⟨sign, whole, fraction, exponent, hsign, hwhole, hzero, hfraction, hexponent⟩ := h
  rcases hsign with rfl | rfl
  · obtain ⟨p, hscan⟩ := scanWhole_whole hwhole hzero hfraction hexponent false
    refine ⟨p, fun offset rest hrest => ?_⟩
    obtain ⟨stop, hstop⟩ := hscan offset rest hrest
    obtain ⟨d, ds, rfl⟩ := List.exists_cons_of_ne_nil hwhole.nonempty
    have hd : d.isDigit = true := hwhole.digits d List.mem_cons_self
    refine ⟨d, ds ++ (fraction ++ (exponent ++ rest)), stop, by simp, isSpace_digit hd, ?_⟩
    rw [read_digit hd, ← List.cons_append, hstop]
    rfl
  · obtain ⟨p, hscan⟩ := scanWhole_whole hwhole hzero hfraction hexponent true
    refine ⟨p, fun offset rest hrest => ?_⟩
    obtain ⟨stop, hstop⟩ := hscan (offset + 1) rest hrest
    refine ⟨'-', whole ++ (fraction ++ (exponent ++ rest)), stop, by simp, rfl, ?_⟩
    show TokenScan.ofNumber offset (scanWhole true (offset + 1) _) = _
    rw [hstop]
    rfl

/-! ### Words -/

/-- The value that a word denotes. A number that is too large denotes none. -/
def Word.denoted? (w : Word) : Option Json :=
  match lex 0 w.text with
  | ⟨_, _, .scalar value⟩ :: _ => value.toOption
  | _ => none

theorem lex_word (w : Word) (offset : Nat) {rest : List Char} (hrest : EndsNumber rest) :
    ∃ value stop, lex offset (w.text ++ rest) = ⟨offset, stop, .scalar value⟩ :: lex stop rest ∧
      value.toOption = w.denoted? := by
  suffices h : ∃ denoted : Option Json, ∀ offset rest, EndsNumber rest → ∃ value stop,
      lex offset (w.text ++ rest) = ⟨offset, stop, .scalar value⟩ :: lex stop rest ∧
        value.toOption = denoted by
    obtain ⟨denoted, h⟩ := h
    obtain ⟨value, stop, hlex, hvalue⟩ := h offset rest hrest
    obtain ⟨value₀, stop₀, hlex₀, hvalue₀⟩ := h 0 [] (by simp [EndsNumber])
    refine ⟨value, stop, hlex, ?_⟩
    rw [List.append_nil] at hlex₀
    rw [Word.denoted?, hlex₀, hvalue, ← hvalue₀]
  obtain ⟨text, valid⟩ := w
  cases valid with
  | null => exact ⟨some .null, fun offset rest _ => ⟨_, _, lex_null offset rest, rfl⟩⟩
  | true =>
    exact ⟨some (.bool true), fun offset rest _ => ⟨.ok (.bool true), offset + 4, by
      rw [List.cons_append, lex_cons offset rfl]; rfl, rfl⟩⟩
  | false =>
    exact ⟨some (.bool false), fun offset rest _ => ⟨.ok (.bool false), offset + 5, by
      rw [List.cons_append, lex_cons offset rfl]; rfl, rfl⟩⟩
  | number h =>
    obtain ⟨p, hread⟩ := read_number h
    refine ⟨(p.value 0).toOption, fun offset rest hrest => ?_⟩
    obtain ⟨c, tail, stop, htext, hc, hscan⟩ := hread offset rest hrest
    refine ⟨p.value stop, stop, ?_, toOption_value p stop 0⟩
    rw [htext, lex_cons offset hc, hscan]

end Blockwork.Json
