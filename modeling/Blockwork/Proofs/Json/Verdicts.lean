import Blockwork.Proofs.Json.Completions

/-! What the document of a text tells of the text. Either the whole text is well-formed and its tree
is without damage, or it is well-formed up to some place and its tree is damaged from there on. -/

namespace Blockwork.Json

open Document Text

variable {want want' : Want} {stack stack' outer : List Frame} {text cs : List Char}
  {offset length start : Nat} {items : List Node} {members : List Member} {ending : Ending}
  {root : Node} {t : Token}

/-! ### Where texts break off -/

structure BreaksOff (offset : Nat) (want : Want) (stack : List Frame) (document : Document) :
    Prop where
  root : Breaks offset want stack document.root
  trailing : document.trailing = none

theorem wraps_unwind_member (start : Nat) (members : List Member) (key : Except Fault String)
    (refused : Nat) (outer : List Frame) (node : Node) :
    Wraps outer (.object start (members.reverse ++ [⟨key, refused, node⟩]) .unread)
      (node.unwind (.member start members key refused :: outer)) := by
  rw [← List.reverse_cons]
  exact wraps_unwind outer _

theorem broken_breaksOff (hwant : want.TakesValue) {read skipped : Fault}
    (hread : read.cause.isSyntax = true) (hskipped : skipped.cause.isSyntax = true) :
    BreaksOff offset want stack (broken stack start read skipped) :=
  ⟨.value hwant hread hskipped (wraps_unwind stack _), rfl⟩

theorem breakOff_breaksOff_array (hending : ending.BreaksList) :
    BreaksOff offset want (.array start items :: outer)
      (breakOff (.array start items :: outer) ending) :=
  ⟨.items hending (wraps_unwind outer _), rfl⟩

theorem breakOff_breaksOff_object (hwant : ∀ key, want ≠ .colon key)
    (hending : ending.BreaksObject) : BreaksOff offset want (.object start members :: outer)
      (breakOff (.object start members :: outer) ending) :=
  ⟨.members hwant hending (wraps_unwind outer _), rfl⟩

theorem broken_breaksOff_colon {key : Except Fault String} {refused first : Nat}
    (hrefused : refused ≤ offset + 1) {read skipped : Fault} (hread : read.cause.isSyntax = true)
    (hskipped : skipped.cause.isSyntax = true) :
    BreaksOff offset (.colon key) (.object start members :: outer)
      (broken (.member start members key refused :: outer) first read skipped) :=
  ⟨.colon hrefused hread hskipped (wraps_unwind_member ..), rfl⟩

theorem atEnd_breaksOff (h : Opening want stack text) (length : Nat) :
    BreaksOff length want stack (atEnd length stack want) := by
  cases h with
  | top | value => exact broken_breaksOff (.inl rfl) rfl rfl
  | firstItem | item | items => exact breakOff_breaksOff_array trivial
  | firstKey | key | members => exact breakOff_breaksOff_object (fun _ => nofun) trivial
  | colon => exact broken_breaksOff_colon (Nat.le_succ _) rfl rfl

theorem atEnd_continues (h : Opening want stack text) (hlength : offset ≤ length) :
    Continues offset want stack (atEnd length stack want).root := by
  have hitems : ∀ outer start (items : List Node) ending, Continues offset want
      (.array start items :: outer) (breakOff (.array start items :: outer) ending).root := by
    intro outer start items ending
    have hroot : Wraps outer (.array start (items.reverse ++ []) ending)
        (breakOff (.array start items :: outer) ending).root := by
      rw [List.append_nil]
      exact wraps_unwind outer _
    exact .items hroot
  have hmembers : (∀ key, want ≠ .colon key) → ∀ outer start (members : List Member) ending,
      Continues offset want (.object start members :: outer)
        (breakOff (.object start members :: outer) ending).root := by
    intro hwant outer start members ending
    have hroot : Wraps outer (.object start (members.reverse ++ []) ending)
        (breakOff (.object start members :: outer) ending).root := by
      rw [List.append_nil]
      exact wraps_unwind outer _
    exact .members hwant hroot
  cases h with
  | top | value => exact .value (wraps_unwind _ _)
  | firstItem | item | items => exact hitems ..
  | firstKey | key | members => exact hmembers (fun _ => nofun) ..
  | colon => exact .colon hlength (wraps_unwind_member ..)

/-! ### Lexemes that stop the document -/

def Document.Step.BreaksOff (offset : Nat) (want : Want) (stack : List Frame) : Step → Prop
  | .halt document => Json.BreaksOff offset want stack document
  | _ => True

structure Token.Sound (t : Token) : Prop where
  lexeme : t.lexeme.Breaks ∨ ∃ piece, t.lexeme.Spelled piece
  stop : t.lexeme = .closeObject → t.stop = t.start + 1

theorem TokenScan.Takes.sound {scan : TokenScan} (h : scan.Takes start cs) : scan.token.Sound where
  lexeme := h.2.imp_right fun ⟨piece, hpiece, _⟩ => ⟨piece, hpiece⟩
  stop hclose := by
    obtain ⟨hstart, hbreaks | ⟨piece, hpiece, -, htakes⟩⟩ := h
    · rw [hclose] at hbreaks
      exact hbreaks.elim
    · rw [hclose] at hpiece htakes
      cases hpiece
      have hlex := htakes [] trivial
      rw [List.cons_append, lex_mark rfl (fun _ _ => rfl), List.cons.injEq] at hlex
      rw [← hlex.1]

theorem value_breaksOff (hwant : want.TakesValue) (ht : t.Sound) :
    (Step.value stack t).BreaksOff t.start want stack := by
  obtain ⟨start, stop, lexeme⟩ := t
  cases lexeme with
  | openArray | openObject => trivial
  | scalar | string => cases stack <;> trivial
  | broken quoted read skipped =>
    obtain h | ⟨_, ⟨⟩⟩ := ht.lexeme
    exact broken_breaksOff hwant h.1 h.2
  | closeArray | closeObject | comma | colon => exact broken_breaksOff hwant rfl rfl

theorem key_breaksOff (start : Nat) (members : List Member) (outer : List Frame)
    (hwant : ∀ key, want ≠ .colon key) (ht : t.Sound) :
    (Step.key (.object start members :: outer) t).BreaksOff t.start want
      (.object start members :: outer) := by
  obtain ⟨first, stop, lexeme⟩ := t
  cases lexeme with
  | string => trivial
  | broken quoted read skipped =>
    obtain h | ⟨_, ⟨⟩⟩ := ht.lexeme
    cases quoted with
    | false => exact breakOff_breaksOff_object hwant trivial
    | true => exact ⟨.key hwant h.1 h.2 (wraps_unwind_member ..), rfl⟩
  | _ => exact breakOff_breaksOff_object hwant trivial

theorem colon_breaksOff {key : Except Fault String} (ht : t.Sound) :
    (Step.colon key (.object start members :: outer) t).BreaksOff t.start (.colon key)
      (.object start members :: outer) := by
  have hstop := ht.stop
  obtain ⟨first, stop, lexeme⟩ := t
  cases lexeme with
  | colon => trivial
  | closeObject => exact broken_breaksOff_colon (hstop rfl).le rfl rfl
  | _ => exact broken_breaksOff_colon (Nat.le_succ _) rfl rfl

theorem close_breaksOff (frame : Frame) (stop : Nat) :
    (Step.close stop (frame :: outer)).BreaksOff offset want stack := by
  cases outer <;> trivial

theorem step_breaksOff (h : Opening want stack text) (ht : t.Sound) :
    (Step.of want stack t).BreaksOff t.start want stack := by
  have hvalue : want.TakesValue → (Step.value stack t).BreaksOff t.start want stack :=
    fun hwant => value_breaksOff hwant ht
  cases h with
  | top | value =>
    have hstep := hvalue (.inl rfl)
    obtain ⟨start, stop, lexeme⟩ := t
    cases lexeme <;> exact hstep
  | firstItem =>
    have hstep := hvalue (.inr (.inl rfl))
    obtain ⟨start, stop, lexeme⟩ := t
    cases lexeme with
    | closeArray => exact close_breaksOff _ stop
    | _ => exact hstep
  | item =>
    have hstep := hvalue (.inr (.inr rfl))
    obtain ⟨start, stop, lexeme⟩ := t
    cases lexeme with
    | closeArray => exact breakOff_breaksOff_array trivial
    | _ => exact hstep
  | items =>
    obtain ⟨start, stop, lexeme⟩ := t
    cases lexeme with
    | comma => trivial
    | closeArray => exact close_breaksOff _ stop
    | _ => exact breakOff_breaksOff_array trivial
  | @firstKey outer _ _ _ _ start members =>
    have hwant : ∀ key, Want.firstKey ≠ .colon key := fun _ => nofun
    have hstep := key_breaksOff start members outer hwant ht
    obtain ⟨start, stop, lexeme⟩ := t
    cases lexeme with
    | closeObject => exact close_breaksOff _ stop
    | _ => exact hstep
  | @key outer _ _ _ _ _ _ _ start members =>
    have hwant : ∀ key, Want.key ≠ .colon key := fun _ => nofun
    have hstep := key_breaksOff start members outer hwant ht
    obtain ⟨start, stop, lexeme⟩ := t
    cases lexeme with
    | closeObject => exact breakOff_breaksOff_object (fun _ => nofun) trivial
    | _ => exact hstep
  | colon => exact colon_breaksOff ht
  | members =>
    obtain ⟨start, stop, lexeme⟩ := t
    cases lexeme with
    | comma => trivial
    | closeObject => exact close_breaksOff _ stop
    | _ => exact breakOff_breaksOff_object (fun _ => nofun) trivial

/-! ### Runs -/

/-- The document of every text that begins so goes on from here. -/
structure Reached (text : List Char) (offset : Nat) (want : Want) (stack : List Frame) : Prop where
  opening : Opening want stack text
  sound : Sound want stack
  run (rest : List Char) (length : Nat) (hrest : want = .separator → EndsNumber rest) :
    ofTokens length .value [] (lex 0 (text ++ rest)) = ofTokens length want stack (lex offset rest)

theorem reached_nil : Reached [] 0 .value [] where
  opening := .top (.top isBlank_nil)
  sound := .of_frames (List.forall_mem_nil _) nofun
  run _ _ _ := rfl

theorem Reached.blank {blank : List Char} (h : Reached text offset want stack)
    (hblank : IsBlank blank) : Reached (text ++ blank) (offset + blank.length) want stack where
  opening := h.opening.append_blank hblank
  sound := h.sound
  run rest length hrest := by
    rw [List.append_assoc, h.run _ _ fun hwant => endsNumber_blank hblank (hrest hwant),
      lex_blank hblank]

theorem endsNumber_of_separator {piece : List Char} (ht : t.lexeme.Spelled piece)
    (hstep : ∀ document, Step.of .separator stack t ≠ .halt document) (rest : List Char) :
    EndsNumber (piece ++ rest) := by
  have hhalt := hstep (breakOff stack (.noComma t.start))
  obtain ⟨start, stop, lexeme⟩ := t
  cases ht with
  | comma => exact endsNumber_mark (.inl rfl) rest
  | closeArray => exact endsNumber_mark (.inr (.inl rfl)) rest
  | closeObject => exact endsNumber_mark (.inr (.inr rfl)) rest
  | openArray | openObject | colon | scalar | string =>
    refine absurd ?_ hhalt
    rcases stack with _ | ⟨_ | _ | _, outer⟩ <;> rfl

theorem ends_of_next {rest : List Char} (hstep : Step.of want stack t = .next want' stack')
    (hrest : want' = .separator → EndsNumber rest) : t.lexeme.Ends rest := by
  obtain ⟨start, stop, lexeme⟩ := t
  cases lexeme with
  | scalar value =>
    refine hrest ?_
    have hvalue : Step.ofNode (.scalar start stop value) stack = .next want' stack' →
        want' = .separator := by
      intro h
      cases stack with
      | nil => exact nomatch h
      | cons frame outer =>
        cases h
        rfl
    cases want with
    | value | firstItem | item => exact hvalue hstep
    | firstKey | key => exact nomatch hstep
    | colon | separator => rcases stack with _ | ⟨_ | _ | _, outer⟩ <;> exact nomatch hstep
  | _ => trivial

theorem step_broken (ht : t.lexeme.Breaks) (want : Want) (stack : List Frame) :
    ∃ document, Step.of want stack t = .halt document := by
  obtain ⟨start, stop, lexeme⟩ := t
  cases lexeme with
  | broken quoted read skipped =>
    cases want with
    | value | firstItem | item => exact ⟨_, rfl⟩
    | firstKey | key | colon | separator =>
      cases quoted <;> rcases stack with _ | ⟨_ | _ | _, outer⟩ <;> exact ⟨_, rfl⟩
  | _ => exact ht.elim

section

variable {scan : TokenScan} {piece : List Char} (h : Reached text offset want stack)
  (hpiece : scan.token.lexeme.Spelled piece)
  (htakes : ∀ rest, scan.token.lexeme.Ends rest →
    lex offset (piece ++ rest) = scan.token :: lex scan.token.stop rest)
include h hpiece htakes

theorem Reached.run_token {rest : List Char} (hends : scan.token.lexeme.Ends rest)
    (hstep : ∀ document, Step.of want stack scan.token ≠ .halt document) (length : Nat) :
    ofTokens length .value [] (lex 0 (text ++ piece ++ rest)) =
      (Step.of want stack scan.token).follow length (lex scan.token.stop rest) := by
  have hrun := h.run (piece ++ rest) length fun hwant =>
    endsNumber_of_separator hpiece (hwant ▸ hstep) rest
  rw [List.append_assoc, hrun, htakes rest hends, ofTokens_cons]

theorem Reached.token (hstep : Step.of want stack scan.token = .next want' stack') :
    Reached (text ++ piece) scan.token.stop want' stack' := by
  have hkeeps := step_keeps h.opening h.sound hpiece
  rw [hstep] at hkeeps
  refine ⟨hkeeps.1, hkeeps.2, fun rest length hrest => ?_⟩
  have hrun := h.run_token hpiece htakes (ends_of_next hstep hrest)
    (fun _ hhalt => nomatch hstep.symm.trans hhalt) length
  rw [hrun, hstep]
  rfl

end

/-! ### Verdicts -/

def IsWellFormed (source : String) : Prop := ∃ t : Tree, t.IsOf source

inductive Document.Damaged (document document' : Document) : Prop
  | inside (h : Node.Alike true document.root document'.root)
  | behind {f : Fault} (h : Node.Alike false document.root document'.root)
      (htrailing : document.trailing = some f) (hill : f.cause.isSyntax = true)

/-- A text is well-formed and its document sound; or it is damaged behind a beginning of a well-formed
text, and its document is like that of the well-formed text, and like that of the beginning. -/
inductive Verdict (source : String) : Prop
  | sound {root : Node} (hof : IsWellFormed source) (hroot : ofText source = ⟨root, none⟩)
      (halike : Node.Alike false root root)
  | damaged {front rest back : String} (hsource : source = front ++ rest)
      (hof : IsWellFormed (front ++ back)) (hback : (ofText source).Damaged (ofText (front ++ back)))
      (hfront : (ofText source).Damaged (ofText front))

theorem Verdict.of_damaged {source : String} {rest back : List Char}
    (hsource : source.toList = text ++ rest) (hof : IsWellFormed (String.ofList (text ++ back)))
    (hback : (ofText source).Damaged (ofText (String.ofList (text ++ back))))
    (hfront : (ofText source).Damaged (ofText (String.ofList text))) : Verdict source := by
  have hsplit : source = String.ofList text ++ String.ofList rest := by
    rw [← String.ofList_append, ← hsource, String.ofList_toList]
  rw [String.ofList_append] at hof hback
  exact .damaged hsplit hof hback hfront

theorem ofText_ofList (cs : List Char) :
    ofText (String.ofList cs) = ofTokens (byteCount cs) .value [] (lex 0 cs) := by
  rw [ofText, ← byteCount_toList, String.toList_ofList]

theorem Reached.cut (h : Reached text offset want stack) :
    ofText (String.ofList text) = atEnd (byteCount text) stack want := by
  have hrun := h.run [] (byteCount text) fun _ => endsNumber_closers []
  rw [List.append_nil, lex] at hrun
  rw [ofText_ofList, hrun]
  rfl

theorem Reached.completed (h : Reached text offset want stack) :
    ∃ back, IsWellFormed (String.ofList (text ++ back)) ∧
      Continues offset want stack (ofText (String.ofList (text ++ back))).root := by
  obtain ⟨back, hback⟩ := h.opening.completes
  obtain ⟨root, hcontinues, hroot⟩ := hback.continues offset (byteCount (text ++ back))
  refine ⟨back, hback.isOf, ?_⟩
  rwa [ofText_ofList, h.run _ _ fun _ => hback.ends, hroot]

theorem Verdict.of_breaksOff {source : String} {blank : List Char}
    (hsource : source.toList = text ++ cs) (h : Reached (text ++ blank) offset want stack)
    (hbreaks : BreaksOff offset want stack (ofText source))
    (hcut : Continues offset want stack (ofText (String.ofList text)).root) : Verdict source := by
  obtain ⟨back, hof, hcontinues⟩ := h.completed
  rw [List.append_assoc] at hof hcontinues
  exact .of_damaged hsource hof (.inside (hbreaks.root.alike h.opening h.sound hcontinues))
    (.inside (hbreaks.root.alike h.opening h.sound hcut))

theorem Verdict.of_end {source : String} (hsource : source.toList = text)
    (hsize : offset ≤ source.utf8ByteSize) (h : Reached text offset want stack)
    (hrun : ofText source = atEnd source.utf8ByteSize stack want) : Verdict source := by
  -- White space makes up for bytes that the lexemes might have left out.
  have hblank : IsBlank (List.replicate (source.utf8ByteSize - offset) ' ') := by
    intro c hc
    rw [List.eq_of_mem_replicate hc]
    rfl
  have hreached := h.blank hblank
  rw [List.length_replicate, Nat.add_sub_cancel' hsize] at hreached
  have hbreaks := atEnd_breaksOff h.opening source.utf8ByteSize
  have hcut : Continues source.utf8ByteSize want stack (ofText (String.ofList text)).root := by
    rw [h.cut, ← hsource, byteCount_toList]
    exact atEnd_continues h.opening le_rfl
  exact .of_breaksOff (hsource.trans (List.append_nil text).symm) hreached (hrun ▸ hbreaks) hcut

theorem isBlank_of_lex {offset : Nat} {cs : List Char} (h : lex offset cs = []) : IsBlank cs := by
  induction offset, cs using lex.induct with
  | case1 offset => exact isBlank_nil
  | case2 offset c rest hspace ih =>
    rw [lex, if_pos hspace] at h
    exact List.forall_mem_cons.2 ⟨hspace, ih h⟩
  | case3 offset c rest hspace ih =>
    rw [lex, if_neg hspace] at h
    cases h

theorem Verdict.of_complete {source : String} {stop : Nat} (hsource : source.toList = text ++ cs)
    (hdone : Done [] text) (halike : Node.Alike false root root)
    (hroot : ofText source =
      ⟨root, (lex stop cs).head?.map fun t => ⟨.trailingCharacters, t.start + 1⟩⟩)
    (hcut : ofText (String.ofList text) = ⟨root, none⟩) : Verdict source := by
  cases hlex : lex stop cs with
  | nil =>
    have hof := hdone.isOf (isBlank_of_lex hlex)
    rw [← hsource, String.ofList_toList] at hof
    rw [hlex] at hroot
    exact .sound hof hroot halike
  | cons first more =>
    rw [hlex] at hroot
    have hdamaged : (ofText source).Damaged (ofText (String.ofList text)) := by
      rw [hroot, hcut]
      exact .behind halike rfl rfl
    exact .of_damaged hsource (hdone.isOf isBlank_nil) (by rwa [List.append_nil]) hdamaged

theorem Verdict.of_halt {source : String} (hsource : source.toList = text ++ cs)
    (hsize : offset + byteCount cs ≤ source.utf8ByteSize) (h : Reached text offset want stack)
    (ht : t.Sound) (hstart : t.start = offset)
    (hstep : Step.of want stack t = .halt (ofText source)) : Verdict source := by
  have hbreaks := step_breaksOff h.opening ht
  rw [hstep, hstart] at hbreaks
  have hoffset : offset ≤ byteCount text := by
    rw [← byteCount_toList, hsource, byteCount_append] at hsize
    omega
  have hreached : Reached (text ++ []) offset want stack := by rwa [List.append_nil]
  refine .of_breaksOff hsource hreached hbreaks ?_
  rw [h.cut]
  exact atEnd_continues h.opening hoffset

theorem Verdict.of_token {source : String} {scan : TokenScan} (hsource : source.toList = text ++ cs)
    (hsize : offset + byteCount cs ≤ source.utf8ByteSize) (h : Reached text offset want stack)
    (htakes : scan.Takes offset cs)
    (hrun : ofText source = (Step.of want stack scan.token).follow source.utf8ByteSize
      (lex scan.token.stop scan.rest))
    (hmore : ∀ text want stack, source.toList = text ++ scan.rest →
      Reached text scan.token.stop want stack →
      ofText source = ofTokens source.utf8ByteSize want stack (lex scan.token.stop scan.rest) →
        Verdict source) : Verdict source := by
  obtain ⟨hstart, hbreaks | ⟨piece, hpiece, rfl, hpieces⟩⟩ := id htakes
  · obtain ⟨document, hstep⟩ := step_broken hbreaks want stack
    rw [hstep] at hrun
    exact .of_halt hsource hsize h htakes.sound hstart (hstep.trans (congrArg _ hrun.symm))
  · have hbehind : source.toList = text ++ piece ++ scan.rest := by rw [hsource, List.append_assoc]
    cases hstep : Step.of want stack scan.token with
    | halt document =>
      rw [hstep] at hrun
      exact .of_halt hsource hsize h htakes.sound hstart (hstep.trans (congrArg _ hrun.symm))
    | next want' stack' =>
      rw [hstep] at hrun
      exact hmore _ _ _ hbehind (h.token hpiece hpieces hstep) hrun
    | complete root =>
      have hkeeps := step_keeps h.opening h.sound hpiece
      have hends : scan.token.lexeme.Ends [] := by
        cases scan.token.lexeme <;> first | exact endsNumber_closers [] | trivial
      have hcut := h.run_token hpiece hpieces hends (fun _ hhalt => nomatch hstep.symm.trans hhalt)
        (byteCount (text ++ piece))
      rw [List.append_nil, ← ofText_ofList, hstep, lex] at hcut
      rw [hstep] at hrun hkeeps
      exact .of_complete hbehind hkeeps.1 hkeeps.2 hrun hcut

theorem Verdict.of_reached {source : String} (hsource : source.toList = text ++ cs)
    (hsize : offset + byteCount cs ≤ source.utf8ByteSize) (h : Reached text offset want stack)
    (hrun : ofText source = ofTokens source.utf8ByteSize want stack (lex offset cs)) :
    Verdict source := by
  -- Lexeme by lexeme `Reached` grows, up to the first that does not go on.
  fun_induction lex offset cs generalizing text want stack with
  | case1 offset => exact .of_end (by rw [hsource, List.append_nil]) hsize h hrun
  | case2 offset c rest hspace ih =>
    have hblank : IsBlank [c] := List.forall_mem_singleton.2 hspace
    exact ih (by simpa using hsource) (drop_within [c] hsize) (h.blank hblank) hrun
  | case3 offset c rest hspace scan =>
    rename_i ih
    have hc : isSpace c = false := Bool.not_eq_true _ ▸ hspace
    rw [ofTokens_cons] at hrun
    refine .of_token hsource hsize h (TokenScan.read_takes offset hc rest) hrun ?_
    exact fun text want stack hsource h hrun =>
      ih hsource (TokenScan.read_within hsize).rest h hrun

theorem verdict (source : String) : Verdict source :=
  have hsize : 0 + byteCount source.toList ≤ source.utf8ByteSize := by
    rw [byteCount_toList, Nat.zero_add]
  .of_reached (List.nil_append _).symm hsize reached_nil rfl

theorem IsWellFormed.skip {source : String} (h : IsWellFormed source) :
    ∃ root, ofText source = ⟨root, none⟩ ∧ root.skip = .ok () := by
  obtain ⟨t, ht⟩ := h
  obtain ⟨root, hshows, hroot⟩ := ht.document
  exact ⟨root, hroot, hshows.skip⟩

theorem Document.Damaged.not_isWellFormed {source : String} {document : Document}
    (h : (ofText source).Damaged document) : ¬ IsWellFormed source := by
  intro hof
  obtain ⟨root, hroot, hskip⟩ := hof.skip
  rw [hroot] at h
  cases h with
  | inside h =>
    have hforetells := h.skip
    rw [hskip] at hforetells
    exact nomatch hforetells
  | behind _ htrailing => exact nomatch htrailing

end Blockwork.Json
