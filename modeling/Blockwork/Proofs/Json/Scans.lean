import Blockwork.Proofs.Json.Layout

/-! What a scan takes from a text. A lexeme that is not broken stands for a piece of the grammar, and the
piece gives the same lexeme when something else comes behind it. -/

namespace Blockwork.Json

/-- The causes by which well-formed texts are refused: a number beyond all doubles, half of a pair of
surrogates, and an item too many of a record in array form. -/
def Cause.refuses : Cause → Bool
  | .outOfRange | .loneSurrogate | .endOfSurrogatePair | .trailingCharacters => true
  | _ => false

theorem Cause.isSyntax_of_refuses {cause : Cause} (h : cause.refuses = true) :
    cause.isSyntax = true := by
  cases cause <;> first | rfl | exact absurd h Bool.false_ne_true

def Refuses {α : Type} (x : Except Fault α) : Prop := ∀ f, x = .error f → f.cause.refuses = true

namespace Refuses

variable {α β : Type}

theorem ok (a : α) : Refuses (.ok a : Except Fault α) := fun _ h => nomatch h

theorem error {f : Fault} (h : f.cause.refuses = true) : Refuses (.error f : Except Fault α) :=
  fun _ hf => Except.error.inj hf ▸ h

theorem map {x : Except Fault α} (h : Refuses x) (f : α → β) : Refuses (x.map f) := by
  cases x with
  | error e => exact .error (h e rfl)
  | ok a => exact .ok (f a)

end Refuses

/-! ### Strings -/

namespace StringScan

/-- What is scanned up to the rest is a string up to its quote; otherwise the text is ill-formed. -/
def Takes (cs : List Char) : StringScan → Prop
  | .closed content _ rest => Refuses content ∧ ∃ body, IsQuoted body ∧ cs = body ++ '"' :: rest
  | .broken read skipped => read.cause.isSyntax = true ∧ skipped.cause.isSyntax = true

variable {s : StringScan} {cs : List Char}

theorem Takes.push (h : s.Takes cs) (c : Char) : (s.push c).Takes cs := by
  cases s with
  | closed content stop rest => exact ⟨h.1.map _, h.2⟩
  | broken => exact h

theorem Takes.fail (h : s.Takes cs) {f : Fault} (hf : f.cause.refuses = true) :
    (s.fail f).Takes cs := by
  cases s with
  | closed content stop rest => exact ⟨.error hf, h.2⟩
  | broken => exact ⟨Cause.isSyntax_of_refuses hf, h.2⟩

theorem Takes.unpaired (h : s.Takes cs) (high : Option Nat) {f : Fault}
    (hf : f.cause.refuses = true) : (s.unpaired high f).Takes cs := by
  unfold StringScan.unpaired
  split
  · exact h.fail hf
  · exact h

theorem Takes.append (h : s.Takes cs) (front : List Char)
    (hfront : ∀ body, IsQuoted body → IsQuoted (front ++ body)) : s.Takes (front ++ cs) := by
  cases s with
  | closed content stop rest =>
    obtain ⟨hcontent, body, hbody, rfl⟩ := h
    exact ⟨hcontent, front ++ body, hfront body hbody, by rw [List.append_assoc]⟩
  | broken => exact h

def before (rest : List Char) : StringScan → StringScan
  | .closed content stop _ => .closed content stop rest
  | .broken read skipped => .broken read skipped

variable (s) (rest : List Char)

theorem before_push (c : Char) : (s.push c).before rest = (s.before rest).push c := by
  cases s <;> rfl

theorem before_fail (f : Fault) : (s.fail f).before rest = (s.before rest).fail f := by
  cases s <;> rfl

theorem before_unpaired (high : Option Nat) (f : Fault) :
    (s.unpaired high f).before rest = (s.before rest).unpaired high f := by
  unfold unpaired
  split
  · exact s.before_fail rest f
  · rfl

end StringScan

theorem scanString_takes (high : Option Nat) (offset : Nat) (cs : List Char) :
    (scanString high offset cs).Takes cs := by
  fun_induction scanString high offset cs with
  | case1 | case3 | case4 => exact ⟨rfl, rfl⟩
  | case9 high offset rest =>
    have hfault : (hexFault (offset + 2) rest).cause.isSyntax = true := by
      unfold hexFault
      split <;> rfl
    exact ⟨hfault, hfault⟩
  | case2 high offset rest =>
    have hquote : (StringScan.closed (.ok []) (offset + 1) rest).Takes ('"' :: rest) :=
      ⟨.ok [], [], .nil, rfl⟩
    exact hquote.unpaired high rfl
  | case5 offset a b c d rest unit hunit hlow high ih =>
    exact (ih.push _).append ['\\', 'u', a, b, c, d] fun _ => .unit (by simp [hunit])
  | case6 offset a b c d rest unit hunit hlow ih =>
    exact (ih.fail rfl).append ['\\', 'u', a, b, c, d] fun _ => .unit (by simp [hunit])
  | case7 high offset a b c d rest unit hunit hlow hhigh ih =>
    exact (ih.unpaired high rfl).append ['\\', 'u', a, b, c, d] fun _ =>
      .unit (by simp [hunit])
  | case8 high offset a b c d rest unit hunit hlow hhigh ih =>
    exact ((ih.push _).unpaired high rfl).append ['\\', 'u', a, b, c, d] fun _ =>
      .unit (by simp [hunit])
  | case10 high offset c rest hdigits hu ih =>
    refine StringScan.Takes.unpaired ?_ high rfl
    split
    · rename_i letter hletter
      exact (ih.push _).append ['\\', c] fun _ => .letter (by simp [hletter])
    · exact ⟨rfl, rfl⟩
  | case11 high offset c rest hquote hend hunit hletter ih =>
    have hslash : c ≠ '\\' := by
      rintro rfl
      cases rest with
      | nil => exact hend rfl rfl
      | cons d rest => exact hletter d rest rfl rfl
    refine StringScan.Takes.unpaired ?_ high rfl
    split
    · exact ⟨rfl, rfl⟩
    · exact (ih.push _).append [c] fun _ => .plain (by omega) hquote hslash

theorem scanString_before {body : List Char} (h : IsQuoted body) (high : Option Nat) (offset : Nat)
    (rest rest' : List Char) : scanString high offset (body ++ '"' :: rest') =
      (scanString high offset (body ++ '"' :: rest)).before rest' := by
  induction h generalizing high offset with
  | nil =>
    rw [List.nil_append, List.nil_append, scanString, scanString, StringScan.before_unpaired]
    rfl
  | @plain c cs hc hquote hslash _ ih =>
    have hscan : ∀ rest, scanString high offset (c :: cs ++ '"' :: rest) =
        ((scanString none (offset + c.utf8Size) (cs ++ '"' :: rest)).push c).unpaired high
          ⟨.endOfSurrogatePair, offset + 1⟩ := by
      intro rest
      rw [List.cons_append, scanString, if_neg (Nat.not_lt.2 hc)]
      · exact hquote
      · exact fun h _ => hslash h
      · exact fun _ _ _ _ _ h _ => hslash h
      · exact fun _ _ h _ => hslash h
    rw [hscan, hscan, StringScan.before_unpaired, StringScan.before_push, ← ih]
  | @letter c cs hc _ ih =>
    obtain ⟨letter, hletter⟩ := Option.isSome_iff_exists.1 hc
    have hu : c ≠ 'u' := by
      rintro rfl
      exact absurd hletter (Option.some_ne_none letter).symm
    have hscan : ∀ rest, scanString high offset ('\\' :: c :: cs ++ '"' :: rest) =
        ((scanString none (offset + 2) (cs ++ '"' :: rest)).push letter).unpaired high
          ⟨.endOfSurrogatePair, offset + 2⟩ := by
      intro rest
      rw [List.cons_append, List.cons_append, scanString, if_neg hu, hletter]
      exact fun _ _ _ _ _ h _ => hu h
    rw [hscan, hscan, StringScan.before_unpaired, StringScan.before_push, ← ih]
  | @unit a b c d cs hunit _ ih =>
    obtain ⟨unit, hunit⟩ := Option.isSome_iff_exists.1 hunit
    simp only [List.cons_append]
    rewrite [scanString, scanString, hunit]
    dsimp only
    split
    · cases high with
      | none => rw [StringScan.before_fail, ← ih]
      | some high => rw [StringScan.before_push, ← ih]
    · split
      · rw [StringScan.before_unpaired, ← ih]
      · rw [StringScan.before_unpaired, StringScan.before_push, ← ih]

/-! ### Numbers -/

def TakesNumber (form : List Char → Prop) (scan : List Char → NumberScan) (cs : List Char) : Prop :=
  ∀ value stop rest, scan cs = .closed value stop rest → ∃ piece, form piece ∧ cs = piece ++ rest ∧
    Refuses value ∧ ∀ rest', EndsNumber rest' → scan (piece ++ rest') = .closed value stop rest'

theorem value_refuses (p : NumberParts) (stop : Nat) : Refuses (p.value stop) := by
  unfold NumberParts.value
  dsimp only
  split
  · exact .ok _
  · split
    · exact .ok _
    · split
      · split
        · exact .error rfl
        · exact .ok _
      · split
        · exact .ok _
        · exact .error rfl

theorem digitFaults_ne_closed (offset : Nat) (cs : List Char) (value : Except Fault Json) (stop : Nat)
    (rest : List Char) : ¬ digitFaults offset cs = .closed value stop rest := by
  cases cs <;> exact nofun

theorem isDigits_takeWhile {cs : List Char} (h : ¬ (cs.takeWhile Char.isDigit).isEmpty = true) :
    IsDigits (cs.takeWhile Char.isDigit) :=
  ⟨fun hnil => h (by rw [hnil]; rfl), fun _ hc => (List.mem_takeWhile_imp hc)⟩

theorem scanExponentDigits_takes (p : NumberParts) (negative : Bool) (offset : Nat)
    (cs : List Char) : TakesNumber IsDigits (scanExponentDigits p negative offset) cs := by
  intro value stop rest h
  unfold scanExponentDigits at h
  dsimp only at h
  split at h
  · exact absurd h (digitFaults_ne_closed _ _ _ _ _)
  · rename_i hdigits
    have hpiece := isDigits_takeWhile hdigits
    obtain ⟨rfl, rfl, rfl⟩ := NumberScan.closed.inj h
    refine ⟨_, hpiece, List.takeWhile_append_dropWhile.symm, value_refuses _ _, fun rest' hrest' => ?_⟩
    obtain ⟨htake, hdrop⟩ := span_digits hpiece.digits fun c hc => (hrest' c hc).1
    unfold scanExponentDigits
    simp only [htake, hdrop, if_neg hdigits]

theorem scanExponent_takes (p : NumberParts) (offset : Nat) (cs : List Char) :
    TakesNumber IsExponent (scanExponent p offset) cs := by
  -- A mark and a sign lead the digits, and what leads them is found before other digits too.
  have hmarked : ∀ (sign : List Char) {mark : Char} {rest : List Char}, mark = 'e' ∨ mark = 'E' →
      sign = [] ∨ sign = ['+'] ∨ sign = ['-'] → ∀ {value stop rest'},
        scanExponentDigits p (sign = ['-']) (offset + 1 + sign.length) rest =
            .closed value stop rest' →
          ∃ piece, IsExponent piece ∧ mark :: (sign ++ rest) = piece ++ rest' ∧ Refuses value ∧
            ∀ rest', EndsNumber rest' →
              scanExponent p offset (piece ++ rest') = .closed value stop rest' := by
    intro sign mark rest hmark hsign value stop rest' h
    obtain ⟨digits, hdigits, rfl, hvalue, htakes⟩ := scanExponentDigits_takes p _ _ _ _ _ _ h
    refine ⟨mark :: (sign ++ digits), .some hmark hsign hdigits, by simp, hvalue,
      fun rest' hrest' => ?_⟩
    rw [List.cons_append, List.append_assoc, scanExponent_marked hmark hsign hdigits]
    exact htakes rest' hrest'
  intro value stop rest h
  unfold scanExponent at h
  split at h
  · exact hmarked ['+'] (.inl rfl) (.inr (.inl rfl)) h
  · exact hmarked ['+'] (.inr rfl) (.inr (.inl rfl)) h
  · exact hmarked ['-'] (.inl rfl) (.inr (.inr rfl)) h
  · exact hmarked ['-'] (.inr rfl) (.inr (.inr rfl)) h
  · exact hmarked [] (.inl rfl) (.inl rfl) h
  · exact hmarked [] (.inr rfl) (.inl rfl) h
  · obtain ⟨rfl, rfl, rfl⟩ := NumberScan.closed.inj h
    refine ⟨[], .none, rfl, value_refuses p _, fun rest' hrest' => ?_⟩
    unfold scanExponent
    rw [List.nil_append]
    split <;> first | rfl | exact absurd rfl (hrest' _ rfl).2.2.1 |
      exact absurd rfl (hrest' _ rfl).2.2.2

inductive IsTail : List Char → Prop
  | mk {fraction exponent : List Char} (hfraction : IsFraction fraction)
    (hexponent : IsExponent exponent) : IsTail (fraction ++ exponent)

theorem scanFraction_takes (p : NumberParts) (offset : Nat) (cs : List Char) :
    TakesNumber IsTail (scanFraction p offset) cs := by
  intro value stop rest h
  unfold scanFraction at h
  split at h
  · rename_i cs
    dsimp only at h
    split at h
    · exact absurd h (digitFaults_ne_closed _ _ _ _ _)
    · rename_i hdigits
      have hpiece := isDigits_takeWhile hdigits
      obtain ⟨exponent, hexponent, hcs, hvalue, htakes⟩ := scanExponent_takes _ _ _ _ _ _ h
      refine ⟨_, .mk (.some hpiece) hexponent, ?_, hvalue, fun rest' hrest' => ?_⟩
      · rw [List.cons_append, List.cons_append, List.append_assoc, ← hcs,
          List.takeWhile_append_dropWhile]
      · obtain ⟨htake, hdrop⟩ := span_digits hpiece.digits fun c hc =>
          (head_exponent hexponent hrest' c hc).1
        unfold scanFraction
        simp only [List.cons_append, List.append_assoc, htake, hdrop, if_neg hdigits]
        exact htakes rest' hrest'
  · obtain ⟨exponent, hexponent, rfl, hvalue, htakes⟩ := scanExponent_takes _ _ _ _ _ _ h
    refine ⟨exponent, .mk .none hexponent, rfl, hvalue, fun rest' hrest' => ?_⟩
    have hhead := head_exponent hexponent hrest'
    unfold scanFraction
    split
    · rename_i heq
      exact absurd rfl (hhead '.' (by rw [heq]; rfl)).2
    · exact htakes rest' hrest'

theorem head_tail {tail : List Char} (h : IsTail tail) {rest : List Char} (hrest : EndsNumber rest) :
    ∀ c ∈ (tail ++ rest).head?, c.isDigit = false := by
  obtain ⟨hfraction, hexponent⟩ := h
  rw [List.append_assoc]
  exact head_fraction hfraction fun c hc => (head_exponent hexponent hrest c hc).1

inductive IsUnsigned : List Char → Prop
  | mk {whole tail : List Char} (hwhole : IsDigits whole)
    (hzero : whole.head? = some '0' → whole.length = 1) (htail : IsTail tail) :
    IsUnsigned (whole ++ tail)

theorem IsUnsigned.isNumber {cs : List Char} (h : IsUnsigned cs) {sign : List Char}
    (hsign : sign = [] ∨ sign = ['-']) : IsNumber (sign ++ cs) := by
  obtain ⟨hwhole, hzero, hfraction, hexponent⟩ := h
  exact .mk hsign hwhole hzero hfraction hexponent

theorem scanWhole_takes (negative : Bool) (offset : Nat) (cs : List Char) :
    TakesNumber IsUnsigned (scanWhole negative offset) cs := by
  intro value stop rest h
  unfold scanWhole at h
  dsimp only at h
  split at h
  · exact absurd h (digitFaults_ne_closed _ _ _ _ _)
  · rename_i hdigits
    split at h
    · exact nomatch h
    · rename_i hlone
      have hpiece := isDigits_takeWhile hdigits
      have hlength := List.length_pos_of_ne_nil hpiece.nonempty
      have hzero : (cs.takeWhile Char.isDigit).head? = some '0' →
          (cs.takeWhile Char.isDigit).length = 1 := by
        intro hhead
        have hshort : ¬ 1 < (cs.takeWhile Char.isDigit).length := by simpa [hhead] using hlone
        omega
      obtain ⟨tail, htail, hcs, hvalue, htakes⟩ := scanFraction_takes _ _ _ _ _ _ h
      refine ⟨_, .mk hpiece hzero htail, ?_, hvalue, fun rest' hrest' => ?_⟩
      · rw [List.append_assoc, ← hcs, List.takeWhile_append_dropWhile]
      · obtain ⟨htake, hdrop⟩ := span_digits hpiece.digits (head_tail htail hrest')
        unfold scanWhole
        simp only [List.append_assoc, htake, hdrop, if_neg hdigits, if_neg hlone]
        exact htakes rest' hrest'

def NumberScan.Breaks : NumberScan → Prop
  | .broken read skipped => read.cause.isSyntax = true ∧ skipped.cause.isSyntax = true
  | .closed _ _ _ => True

theorem digitFaults_breaks (offset : Nat) (cs : List Char) : (digitFaults offset cs).Breaks := by
  cases cs <;> exact ⟨rfl, rfl⟩

theorem scanExponentDigits_breaks (p : NumberParts) (negative : Bool) (offset : Nat)
    (cs : List Char) : (scanExponentDigits p negative offset cs).Breaks := by
  unfold scanExponentDigits
  dsimp only
  split
  · exact digitFaults_breaks offset cs
  · trivial

theorem scanExponent_breaks (p : NumberParts) (offset : Nat) (cs : List Char) :
    (scanExponent p offset cs).Breaks := by
  unfold scanExponent
  split
  case h_7 => trivial
  all_goals exact scanExponentDigits_breaks ..

theorem scanFraction_breaks (p : NumberParts) (offset : Nat) (cs : List Char) :
    (scanFraction p offset cs).Breaks := by
  unfold scanFraction
  split
  · dsimp only
    split
    · exact digitFaults_breaks ..
    · exact scanExponent_breaks ..
  · exact scanExponent_breaks ..

theorem scanWhole_breaks (negative : Bool) (offset : Nat) (cs : List Char) :
    (scanWhole negative offset cs).Breaks := by
  unfold scanWhole
  dsimp only
  split
  · exact digitFaults_breaks ..
  · split
    · exact ⟨rfl, rfl⟩
    · exact scanFraction_breaks ..

/-! ### Lexemes -/

/-- The piece of the grammar that a lexeme stands for. -/
inductive Lexeme.Spelled : Lexeme → List Char → Prop
  | openArray : Lexeme.Spelled .openArray ['[']
  | closeArray : Lexeme.Spelled .closeArray [']']
  | openObject : Lexeme.Spelled .openObject ['\x7b']
  | closeObject : Lexeme.Spelled .closeObject ['\x7d']
  | comma : Lexeme.Spelled .comma [',']
  | colon : Lexeme.Spelled .colon [':']
  | scalar (w : Word) {value : Except Fault Json} (h : Refuses value) :
    Lexeme.Spelled (.scalar value) w.text
  | string (q : Quoted) {content : Except Fault String} (h : Refuses content) :
    Lexeme.Spelled (.string content) q.text

def Lexeme.Ends (rest : List Char) : Lexeme → Prop
  | .scalar _ => EndsNumber rest
  | _ => True

def Lexeme.Breaks : Lexeme → Prop
  | .broken _ read skipped => read.cause.isSyntax = true ∧ skipped.cause.isSyntax = true
  | _ => False

def TokenScan.Takes (start : Nat) (cs : List Char) (s : TokenScan) : Prop :=
  s.token.start = start ∧ (s.token.lexeme.Breaks ∨
    ∃ piece, s.token.lexeme.Spelled piece ∧ cs = piece ++ s.rest ∧
      ∀ rest, s.token.lexeme.Ends rest →
        lex start (piece ++ rest) = s.token :: lex s.token.stop rest)

namespace TokenScan

variable (start : Nat)

theorem scanWord_ok {letters cs rest : List Char} {offset : Nat}
    (h : scanWord offset letters cs = .ok rest) : cs = letters ++ rest ∧
      ∀ rest', scanWord offset letters (letters ++ rest') = .ok rest' := by
  fun_induction scanWord offset letters cs with
  | case1 offset cs => exact ⟨Except.ok.inj h, fun _ => rfl⟩
  | case2 => cases h
  | case3 offset letters letter cs ih =>
    obtain ⟨rfl, hscan⟩ := ih h
    exact ⟨rfl, fun rest' => by rw [List.cons_append, scanWord, if_pos rfl, hscan]⟩
  | case4 => cases h

theorem scanWord_error {letters cs : List Char} {offset : Nat} {f : Fault}
    (h : scanWord offset letters cs = .error f) : f.cause.isSyntax = true := by
  fun_induction scanWord offset letters cs with
  | case1 => cases h
  | case2 | case4 => exact Except.error.inj h ▸ rfl
  | case3 offset letters letter cs ih => exact ih h

theorem takes_mark {c : Char} {lexeme : Lexeme} (hc : isSpace c = false)
    (hlexeme : lexeme.Spelled [c])
    (hread : ∀ start rest, read start c rest = ofMark start lexeme rest) (cs : List Char) :
    (read start c cs).Takes start (c :: cs) := by
  rw [hread]
  exact ⟨rfl, .inr ⟨[c], hlexeme, rfl, fun rest _ => lex_mark hc hread start rest⟩⟩

theorem takes_word {c : Char} {letters : List Char} {value : Json} (hword : IsWord (c :: letters))
    (hc : isSpace c = false)
    (hread : ∀ rest, read start c rest = ofWord start letters value rest) (cs : List Char) :
    (read start c cs).Takes start (c :: cs) := by
  rw [hread, ofWord]
  split
  · rename_i rest hscan
    obtain ⟨rfl, hbefore⟩ := scanWord_ok hscan
    refine ⟨rfl, .inr ⟨c :: letters, .scalar ⟨_, hword⟩ (.ok value), rfl, fun rest _ => ?_⟩⟩
    rw [List.cons_append, lex_cons start hc, hread, ofWord, hbefore]
  · rename_i f hscan
    exact ⟨rfl, .inl ⟨scanWord_error hscan, scanWord_error hscan⟩⟩

theorem takes_string (cs : List Char) : (read start '"' cs).Takes start ('"' :: cs) := by
  have hread : ∀ cs, read start '"' cs = ofString start (scanString none (start + 1) cs) :=
    fun _ => rfl
  have htakes := scanString_takes none (start + 1) cs
  rw [hread]
  cases hscan : scanString none (start + 1) cs with
  | broken =>
    rw [hscan] at htakes
    exact ⟨rfl, .inl htakes⟩
  | closed content stop rest =>
    rw [hscan] at htakes
    obtain ⟨hcontent, body, hbody, rfl⟩ := htakes
    have htext : ∀ rest, Quoted.text ⟨body, hbody⟩ ++ rest = '"' :: (body ++ '"' :: rest) := by
      intro rest
      simp [Quoted.text]
    refine ⟨rfl, .inr ⟨_, .string ⟨body, hbody⟩ (hcontent.map _), (htext rest).symm,
      fun rest' _ => ?_⟩⟩
    rw [htext, lex_cons start rfl, hread, scanString_before hbody none _ rest, hscan]
    rfl

theorem exists_digit_of_isUnsigned {cs : List Char} (h : IsUnsigned cs) :
    ∃ d ds, cs = d :: ds ∧ d.isDigit = true := by
  obtain @⟨whole, tail, hwhole, -, -⟩ := h
  obtain ⟨d, ds, rfl⟩ := List.exists_cons_of_ne_nil hwhole.nonempty
  exact ⟨d, ds ++ tail, rfl, hwhole.digits d List.mem_cons_self⟩

theorem takes_number {sign : List Char} (negative : Bool) (offset : Nat)
    (hsign : sign = [] ∨ sign = ['-'])
    (hlex : ∀ d ds, d.isDigit = true → lex start (sign ++ d :: ds) =
      (ofNumber start (scanWhole negative offset (d :: ds))).token ::
        lex (ofNumber start (scanWhole negative offset (d :: ds))).token.stop
          (ofNumber start (scanWhole negative offset (d :: ds))).rest) (digits : List Char) :
    (ofNumber start (scanWhole negative offset digits)).Takes start (sign ++ digits) := by
  have hbreaks := scanWhole_breaks negative offset digits
  cases hscan : scanWhole negative offset digits with
  | broken =>
    rw [hscan] at hbreaks
    exact ⟨rfl, .inl hbreaks⟩
  | closed value stop rest =>
    obtain ⟨piece, hpiece, rfl, hvalue, hbefore⟩ := scanWhole_takes _ _ _ _ _ _ hscan
    obtain ⟨d, ds, rfl, hd⟩ := exists_digit_of_isUnsigned hpiece
    refine ⟨rfl, .inr ⟨_, .scalar ⟨_, .number (hpiece.isNumber hsign)⟩ hvalue,
      (List.append_assoc ..).symm, fun rest' hrest' => ?_⟩⟩
    have hscan' := hbefore rest' hrest'
    rw [List.cons_append] at hscan'
    rw [List.append_assoc, List.cons_append, hlex d (ds ++ rest') hd, hscan']
    rfl

theorem read_takes {c : Char} (hc : isSpace c = false) (cs : List Char) :
    (read start c cs).Takes start (c :: cs) := by
  by_cases hdigit : c.isDigit = true
  · rw [read_digit hdigit]
    refine takes_number start false start (.inl rfl) (fun d ds hd => ?_) (c :: cs)
    rw [List.nil_append, lex_cons start (isSpace_digit hd), read_digit hd]
  · have hmarks : c = '[' ∨ c = ']' ∨ c = '\x7b' ∨ c = '\x7d' ∨ c = ',' ∨ c = ':' ∨ c = 'n' ∨
        c = 't' ∨ c = 'f' ∨ c = '"' ∨ c = '-' ∨
          read start c cs = ⟨⟨start, start, .broken false ⟨.noValue, start + 1⟩
            ⟨.noValue, start + 1⟩⟩, []⟩ := by
      unfold read
      split
      case h_12 => simp [hdigit]
      all_goals simp
    rcases hmarks with rfl | rfl | rfl | rfl | rfl | rfl | rfl | rfl | rfl | rfl | rfl | hread
    · exact takes_mark start hc .openArray (fun _ _ => rfl) cs
    · exact takes_mark start hc .closeArray (fun _ _ => rfl) cs
    · exact takes_mark start hc .openObject (fun _ _ => rfl) cs
    · exact takes_mark start hc .closeObject (fun _ _ => rfl) cs
    · exact takes_mark start hc .comma (fun _ _ => rfl) cs
    · exact takes_mark start hc .colon (fun _ _ => rfl) cs
    · exact takes_word start .null hc (fun _ => rfl) cs
    · exact takes_word start .true hc (fun _ => rfl) cs
    · exact takes_word start .false hc (fun _ => rfl) cs
    · exact takes_string start cs
    · exact takes_number start true (start + 1) (.inr rfl) (fun d ds _ => lex_cons start hc _) cs
    · rw [hread]
      exact ⟨rfl, .inl ⟨rfl, rfl⟩⟩

end TokenScan

end Blockwork.Json
