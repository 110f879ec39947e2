import Blockwork.Proofs.Target.Blocks

/-! Printed programs are read back as they were: what two trees have in common that are printed as
the same text. -/

namespace Blockwork.Target

mutual

def Stmt.shape : Stmt → StmtTree
  | .expr e => .expr e.shape
  | .branch condition body otherwise =>
    .branch condition.shape (bodyShape body) (bodyShape otherwise)
  | .whileLoop condition body => .whileLoop condition.shape (bodyShape body)
  | .forLoop start condition update body =>
    .forLoop start.shape condition.shape update.shape (bodyShape body)
  | .forEach name sequence body => .forEach (identifier name) sequence.shape (bodyShape body)
  | .breaking => .breaking
  | .continuing => .continuing

def bodyShape : List Stmt → List StmtTree
  | [] => []
  | s :: rest => s.shape :: bodyShape rest

end

variable {ts rest : List Token}

/-! ### What statements begin with -/

def continuations : List Token := [.sign "\x7d", .word "else", .word "var"]

theorem stmt_continuation {u : Token} (hu : u ∈ continuations) (us : List Token) :
    ∀ n, (blocks n).stmt (u :: us) = none
  | 0 => rfl
  | n + 1 => by
    have hread : readPhrase (u :: us) = none := by
      simp only [continuations, List.mem_cons, List.not_mem_nil, or_false] at hu
      rcases hu with rfl | rfl | rfl <;> exact phrase_eq_none rfl (fun _ => rfl) _ _
    have hstmt : (blocks n).stmtFrom (u :: us) =
        (closed ";" readPhrase (u :: us)).map fun r => (.expr r.1, r.2) := by
      simp only [continuations, List.mem_cons, List.not_mem_nil, or_false] at hu
      rcases hu with rfl | rfl | rfl <;> rfl
    show (blocks n).stmtFrom (u :: us) = none
    rw [hstmt, closed, hread]
    rfl

theorem ReadsStmt.head {s : StmtTree} (h : ReadsStmt ts s rest) :
    ∀ u ∈ ts.head?, u ∉ continuations := by
  intro u hu hmem
  obtain ⟨us, rfl⟩ : ∃ us, ts = u :: us := List.head?_eq_some_iff.1 hu
  have hread := h.gives _ (Nat.le_refl _)
  rw [stmt_continuation hmem] at hread
  exact absurd hread (by simp)

theorem ReadsRow.head {body : List StmtTree} (h : ReadsRow ts body rest) :
    ∀ u ∈ ts.head?, u = .sign "\x7d" ∨ u ∉ continuations := by
  intro u hu
  by_cases hbrace : u = .sign "\x7d"
  · exact .inl hbrace
  · refine .inr fun hmem => ?_
    obtain ⟨us, rfl⟩ : ∃ us, ts = u :: us := List.head?_eq_some_iff.1 hu
    have hread : (blocks (2 * (us.length + 1) + 1)).rowFrom (u :: us) = some (body, rest) :=
      h.gives (2 * (us.length + 1) + 2) (Nat.le_refl _)
    unfold Blocks.rowFrom at hread
    split at hread
    · rename_i heq
      exact absurd heq (by simp)
    · rename_i heq
      exact absurd (List.cons.inj heq).1 hbrace
    · rw [stmt_continuation hmem] at hread
      exact absurd hread (by simp)

theorem ReadsRow.ne_else {body : List StmtTree} (h : ReadsRow ts body rest) :
    ∀ u ∈ ts.head?, u ≠ .word "else" := by
  rintro u hu rfl
  rcases h.head _ hu with h | h
  · exact absurd h (by simp)
  · exact h (by simp [continuations])

/-! ### Reading back -/

def Stmt.ReadsBack (s : Stmt) : Prop :=
  ∀ rest : List Token, (∀ u ∈ rest.head?, u ≠ .word "else") → ReadsStmt (s.tokens ++ rest) s.shape rest

def BodyReadsBack (body : List Stmt) : Prop :=
  ∀ rest : List Token, (∀ u ∈ rest.head?, u = .sign "\x7d") →
    ReadsRow (bodyTokens body ++ rest) (bodyShape body) rest

def ElseReadsBack (otherwise : List Stmt) : Prop :=
  ∀ rest : List Token, (∀ u ∈ rest.head?, u ≠ .word "else") →
    ReadsElse (elseTokens otherwise ++ rest) (bodyShape otherwise) rest

theorem Expr.reads_line {e : Expr} (h : e.WellNamed) (mark : String)
    (hmark : (Token.sign mark).reach = 0) (rest : List Token) :
    Reads assignStrength (e.lineTokens ++ .sign mark :: rest) e.shape (.sign mark :: rest) :=
  Expr.reads_print h (Expr.stops_of_reach (by rw [hmark]; decide) rest)

theorem BodyReadsBack.block {body : List Stmt} (h : BodyReadsBack body) (rest : List Token) :
    ReadsBlock (.sign "\x7b" :: (bodyTokens body ++ .sign "\x7d" :: rest)) (bodyShape body) rest := by
  refine .of_row (h _ ?_)
  intro u hu
  exact (Option.some.inj hu).symm

theorem bodyReadsBack_cons {s : Stmt} {body : List Stmt} (hs : s.ReadsBack)
    (hbody : BodyReadsBack body) : BodyReadsBack (s :: body) := by
  intro rest hrest
  have hmore := hbody rest hrest
  have hstmt := hs _ hmore.ne_else
  rw [bodyTokens, List.append_assoc]
  refine .cons ?_ hstmt hmore
  rintro u hu rfl
  exact hstmt.head _ hu (by simp [continuations])

theorem readsBack_branch {condition : Expr} (hcondition : condition.WellNamed)
    {body otherwise : List Stmt} (hbody : BodyReadsBack body) (helse : ElseReadsBack otherwise) :
    (Stmt.branch condition body otherwise).ReadsBack := by
  intro rest hrest
  have hhead := condition.reads_line hcondition ")" (by decide)
    (.sign "\x7b" :: (bodyTokens body ++ .sign "\x7d" :: (elseTokens otherwise ++ rest)))
  have hstmt := ReadsStmt.branch hhead (hbody.block _) (helse rest hrest)
  simpa [Stmt.tokens, Stmt.shape, headTokens] using hstmt

theorem elseReadsBack_lone {condition : Expr} (hcondition : condition.WellNamed)
    {body otherwise : List Stmt} (hbody : BodyReadsBack body) (helse : ElseReadsBack otherwise) :
    ElseReadsBack [.branch condition body otherwise] := by
  intro rest hrest
  have hstmt := readsBack_branch hcondition hbody helse rest hrest
  rw [Stmt.tokens, List.cons_append, List.cons_append] at hstmt
  simpa [elseTokens, bodyShape] using ReadsElse.lone hstmt

theorem elseReadsBack_block {s : Stmt} {body : List Stmt}
    (hlone : ∀ condition then_ otherwise, s = .branch condition then_ otherwise → body ≠ [])
    (h : BodyReadsBack (s :: body)) : ElseReadsBack (s :: body) := by
  intro rest _
  have hblock := ReadsElse.block (h.block rest)
  rw [elseTokens]
  · simpa [bodyTokens] using hblock
  · exact fun c t o hs hb => hlone c t o hs hb

theorem readsBack_whileLoop {condition : Expr} (hcondition : condition.WellNamed)
    {body : List Stmt} (hbody : BodyReadsBack body) : (Stmt.whileLoop condition body).ReadsBack := by
  intro rest _
  have hhead := condition.reads_line hcondition ")" (by decide)
    (.sign "\x7b" :: (bodyTokens body ++ .sign "\x7d" :: rest))
  have hstmt := ReadsStmt.whileLoop hhead (hbody.block rest)
  simpa [Stmt.tokens, Stmt.shape, headTokens] using hstmt

theorem readsBack_forLoop {start condition update : Expr} (hstart : start.WellNamed)
    (hcondition : condition.WellNamed) (hupdate : update.WellNamed) {body : List Stmt}
    (hbody : BodyReadsBack body) : (Stmt.forLoop start condition update body).ReadsBack := by
  intro rest _
  have hthird := update.reads_line hupdate ")" (by decide)
    (.sign "\x7b" :: (bodyTokens body ++ .sign "\x7d" :: rest))
  have hsecond := condition.reads_line hcondition ";" (by decide)
    (update.lineTokens ++ .sign ")" :: .sign "\x7b" :: (bodyTokens body ++ .sign "\x7d" :: rest))
  have hfirst := start.reads_line hstart ";" (by decide)
    (condition.lineTokens ++ .sign ";" :: (update.lineTokens ++ .sign ")" :: .sign "\x7b" ::
      (bodyTokens body ++ .sign "\x7d" :: rest)))
  have hstmt := ReadsStmt.forLoop hfirst hsecond hthird (hbody.block rest)
  simpa [Stmt.tokens, Stmt.shape, headTokens] using hstmt

theorem readsBack_forEach (name : String) {sequence : Expr} (hsequence : sequence.WellNamed)
    {body : List Stmt} (hbody : BodyReadsBack body) : (Stmt.forEach name sequence body).ReadsBack := by
  intro rest _
  have hhead := sequence.reads_line hsequence ")" (by decide)
    (.sign "\x7b" :: (bodyTokens body ++ .sign "\x7d" :: rest))
  have hstmt := ReadsStmt.forEach (identifier_not_mem_reserved name) hhead (hbody.block rest)
  simpa [Stmt.tokens, Stmt.shape, headTokens] using hstmt

theorem readsBack_expr {e : Expr} (h : e.WellNamed) : (Stmt.expr e).ReadsBack := by
  intro rest _
  have hstmt := ReadsStmt.expr (e.reads_line h ";" (by decide) rest)
  simpa [Stmt.tokens, Stmt.shape] using hstmt

mutual

theorem stmt_readsBack : ∀ s : Stmt, s.WellNamed → s.ReadsBack
  | .expr _, h => readsBack_expr h
  | .branch _ body otherwise, h =>
    readsBack_branch h.1 (body_readsBack body h.2.1) (else_readsBack otherwise h.2.2)
  | .whileLoop _ body, h => readsBack_whileLoop h.1 (body_readsBack body h.2)
  | .forLoop _ _ _ body, h => readsBack_forLoop h.1 h.2.1 h.2.2.1 (body_readsBack body h.2.2.2)
  | .forEach name _ body, h => readsBack_forEach name h.1 (body_readsBack body h.2)
  | .breaking, _ => fun _ _ => .breaking
  | .continuing, _ => fun _ _ => .continuing

theorem body_readsBack : ∀ body : List Stmt, BodyWellNamed body → BodyReadsBack body
  | [], _ => fun _ hrest => .nil hrest
  | s :: body, h => bodyReadsBack_cons (stmt_readsBack s h.1) (body_readsBack body h.2)

theorem else_readsBack : ∀ otherwise : List Stmt, BodyWellNamed otherwise → ElseReadsBack otherwise
  | [], _ => fun _ hrest => .nil hrest
  | [.branch _ body otherwise], h =>
    elseReadsBack_lone h.1.1 (body_readsBack body h.1.2.1) (else_readsBack otherwise h.1.2.2)
  | .branch condition then_ otherwise :: s :: body, h =>
    elseReadsBack_block (fun _ _ _ _ => List.cons_ne_nil s body)
      (bodyReadsBack_cons (stmt_readsBack (.branch condition then_ otherwise) h.1)
        (body_readsBack (s :: body) h.2))
  | .expr e :: body, h =>
    elseReadsBack_block (fun _ _ _ hs => absurd hs (by simp))
      (bodyReadsBack_cons (stmt_readsBack (.expr e) h.1) (body_readsBack body h.2))
  | .whileLoop condition inner :: body, h =>
    elseReadsBack_block (fun _ _ _ hs => absurd hs (by simp))
      (bodyReadsBack_cons (stmt_readsBack (.whileLoop condition inner) h.1) (body_readsBack body h.2))
  | .forLoop start condition update inner :: body, h =>
    elseReadsBack_block (fun _ _ _ hs => absurd hs (by simp))
      (bodyReadsBack_cons (stmt_readsBack (.forLoop start condition update inner) h.1)
        (body_readsBack body h.2))
  | .forEach name sequence inner :: body, h =>
    elseReadsBack_block (fun _ _ _ hs => absurd hs (by simp))
      (bodyReadsBack_cons (stmt_readsBack (.forEach name sequence inner) h.1)
        (body_readsBack body h.2))
  | .breaking :: body, h =>
    elseReadsBack_block (fun _ _ _ hs => absurd hs (by simp))
      (bodyReadsBack_cons (stmt_readsBack .breaking h.1) (body_readsBack body h.2))
  | .continuing :: body, h =>
    elseReadsBack_block (fun _ _ _ hs => absurd hs (by simp))
      (bodyReadsBack_cons (stmt_readsBack .continuing h.1) (body_readsBack body h.2))

end

/-! ### Programs -/

structure ProgramTree where
  declared : List String
  body : List StmtTree

def Program.shape (p : Program) : ProgramTree := ⟨p.declared.map identifier, bodyShape p.body⟩

def readNames : Reader (List String)
  | .word w :: .sign ";" :: rest => if w ∈ reserved then none else some ([w], rest)
  | .word w :: .sign "," :: rest =>
    if w ∈ reserved then none else (readNames rest).map fun (names, rest) => (w :: names, rest)
  | _ => none

def readProgram : List Token → Option ProgramTree
  | .word "var" :: rest => do
    let (names, rest) ← readNames rest
    let body ← readStatements rest
    return ⟨names, body⟩
  | ts => (readStatements ts).map fun body => ⟨[], body⟩

def nameTokens (name : String) : List String → List Token
  | [] => [.word (identifier name), .sign ";"]
  | next :: names => .word (identifier name) :: .sign "," :: nameTokens next names

def Program.tokens (p : Program) : List Token :=
  match p.declared with
  | [] => bodyTokens p.body
  | name :: names => .word "var" :: nameTokens name names ++ bodyTokens p.body

theorem lexes_names (names : List String) : ∀ (name : String) (rest : List Char),
    Lexes (", ".intercalate ((name :: names).map identifier) ++ ";").toList (nameTokens name names)
      rest := by
  induction names with
  | nil =>
    intro name rest
    have hend : Lexes ";".toList [.sign ";"] rest := .mark (by decide)
    rw [List.map_singleton, String.intercalate_singleton, String.toList_append]
    exact (Lexes.word (isWord_identifier name) (Expr.clear_of_semicolon _).apart).append hend
  | cons next names ih =>
    intro name rest
    have hcomma : Lexes (",".toList ++ ' ' ::
        (", ".intercalate ((next :: names).map identifier) ++ ";").toList)
        (.sign "," :: nameTokens next names) rest :=
      (Lexes.mark (by decide)).append ((ih next rest).skip rfl)
    have hname := (Lexes.word (isWord_identifier name) (Expr.clear_of_comma _).apart).append hcomma
    have htext : (", ".intercalate ((name :: next :: names).map identifier) ++ ";").toList =
        (identifier name).toList ++ (",".toList ++ ' ' ::
          (", ".intercalate ((next :: names).map identifier) ++ ";").toList) := by
      simp [String.intercalate_cons_cons]
    rw [htext]
    exact hname

theorem lexes_declaration (name : String) (names : List String) (rest : List Char) :
    Lexes (line 0 ("var " ++ ", ".intercalate ((name :: names).map identifier) ++ ";")).toList
      (.word "var" :: nameTokens name names) rest := by
  have htext : ("var " ++ ", ".intercalate ((name :: names).map identifier) ++ ";").toList =
      "var".toList ++ ' ' :: (", ".intercalate ((name :: names).map identifier) ++ ";").toList := by
    simp
  refine .line 0 ?_
  rw [htext]
  exact .wordSpace (by decide) (lexes_names names name _)

theorem lexes_program {p : Program} (h : BodyWellNamed p.body) :
    Lexes p.print.toList p.tokens [] := by
  have hbody : Lexes (printStatements p.body).toList (bodyTokens p.body) [] :=
    lexes_body p.body h 0 []
  cases hdeclared : p.declared with
  | nil => simpa [Program.print, Program.tokens, hdeclared] using hbody
  | cons name names =>
    have hgap : Lexes ((if p.body.isEmpty then "" else "\n").toList ++ (printStatements p.body).toList)
        (bodyTokens p.body) [] := by
      cases p.body.isEmpty with
      | true => exact hbody
      | false => exact hbody.skip rfl
    have hprint : p.print.toList =
        (line 0 ("var " ++ ", ".intercalate ((name :: names).map identifier) ++ ";")).toList ++
          ((if p.body.isEmpty then "" else "\n").toList ++ (printStatements p.body).toList) := by
      simp [Program.print, hdeclared]
    have htokens : p.tokens = (.word "var" :: nameTokens name names) ++ bodyTokens p.body := by
      rw [Program.tokens, hdeclared]
    rw [hprint, htokens]
    exact (lexes_declaration name names _).append hgap

theorem readNames_nameTokens (names : List String) : ∀ (name : String) (rest : List Token),
    readNames (nameTokens name names ++ rest) = some ((name :: names).map identifier, rest) := by
  induction names with
  | nil =>
    intro name rest
    exact if_neg (identifier_not_mem_reserved name)
  | cons next names ih =>
    intro name rest
    rw [nameTokens, List.cons_append, List.cons_append, readNames,
      if_neg (identifier_not_mem_reserved name), ih]
    rfl

theorem readsRow_body {body : List Stmt} (h : BodyWellNamed body) :
    ReadsRow (bodyTokens body) (bodyShape body) [] := by
  have hrow := body_readsBack body h [] (by simp)
  rwa [List.append_nil] at hrow

theorem readStatements_bodyTokens {body : List Stmt} (h : BodyWellNamed body) :
    readStatements (bodyTokens body) = some (bodyShape body) := by
  rw [readStatements, (readsRow_body h).gives _ (Nat.le_refl _)]

theorem readProgram_tokens {p : Program} (h : BodyWellNamed p.body) :
    readProgram p.tokens = some p.shape := by
  cases hdeclared : p.declared with
  | nil =>
    have hvar : ∀ u ∈ (bodyTokens p.body).head?, u ≠ .word "var" := by
      rintro u hu rfl
      rcases (readsRow_body h).head _ hu with h | h
      · exact absurd h (by simp)
      · exact h (by simp [continuations])
    have hread : readProgram (bodyTokens p.body) =
        (readStatements (bodyTokens p.body)).map fun body => ⟨[], body⟩ := by
      unfold readProgram
      split
      · rename_i heq
        exact absurd rfl (hvar _ (by rw [heq]; rfl))
      · rfl
    rw [Program.tokens, hdeclared]
    show readProgram (bodyTokens p.body) = _
    rw [hread, readStatements_bodyTokens h, Program.shape, hdeclared]
    rfl
  | cons name names =>
    rw [Program.tokens, hdeclared]
    show readProgram (.word "var" :: (nameTokens name names ++ bodyTokens p.body)) = _
    rw [readProgram, readNames_nameTokens]
    show (readStatements (bodyTokens p.body) >>= _) = _
    rw [readStatements_bodyTokens h, Program.shape, hdeclared]
    rfl

/-! ### Texts -/

def parseExpr (text : String) : Option Tree := do
  let (t, rest) ← readPhrase (← tokens text.toList)
  if rest.isEmpty then some t else none

def parseStatements (text : String) : Option (List StmtTree) := do
  readStatements (← tokens text.toList)

def parseProgram (text : String) : Option ProgramTree := do
  readProgram (← tokens text.toList)

theorem Lexes.tokens_eq {text : String} {ts : List Token} (h : Lexes text.toList ts []) :
    tokens text.toList = some ts := by
  rw [Lexes, List.append_nil, tokens] at h
  simpa using h

theorem parseExpr_print {e : Expr} (h : e.WellNamed) : parseExpr e.print = some e.shape := by
  have hstops : Stops assignStrength [] := fun u hu => absurd hu (by simp)
  have hclear : Clear [] := fun c hc => absurd hc (by simp)
  have hread := Expr.reads_print h hstops
  rw [List.append_nil] at hread
  have htokens := (e.lexes_print h hclear).tokens_eq
  rw [parseExpr, htokens]
  show (readPhrase (e.tokensAt assignStrength) >>= _) = _
  rw [hread.readPhrase]
  rfl

theorem parseStatements_print {body : List Stmt} (h : BodyWellNamed body) :
    parseStatements (printStatements body) = some (bodyShape body) := by
  have hlexes : Lexes (printStatements body).toList (bodyTokens body) [] := lexes_body body h 0 []
  rw [parseStatements, hlexes.tokens_eq]
  exact readStatements_bodyTokens h

theorem parseProgram_print {p : Program} (h : BodyWellNamed p.body) :
    parseProgram p.print = some p.shape := by
  rw [parseProgram, (lexes_program h).tokens_eq]
  exact readProgram_tokens h

/-- Printed trees are read as they are. So two trees of one printed text differ in nothing but how
their numbers and variables are written. -/
theorem print_determines_shape :
    ((∀ e : Expr, e.WellNamed → parseExpr e.print = some e.shape) ∧
      (∀ body, BodyWellNamed body → parseStatements (printStatements body) = some (bodyShape body)) ∧
      ∀ p : Program, BodyWellNamed p.body → parseProgram p.print = some p.shape) ∧
    (∀ e e' : Expr, e.WellNamed → e'.WellNamed → e.print = e'.print → e.shape = e'.shape) ∧
    (∀ body body', BodyWellNamed body → BodyWellNamed body' →
      printStatements body = printStatements body' → bodyShape body = bodyShape body') ∧
    ∀ p p' : Program, BodyWellNamed p.body → BodyWellNamed p'.body → p.print = p'.print →
      p.shape = p'.shape := by
  refine ⟨⟨fun _ => parseExpr_print, fun _ => parseStatements_print, fun _ => parseProgram_print⟩,
    ?_, ?_, ?_⟩
  · intro e e' h h' hprint
    have hparse := parseExpr_print h
    rw [hprint, parseExpr_print h'] at hparse
    exact (Option.some.inj hparse).symm
  · intro body body' h h' hprint
    have hparse := parseStatements_print h
    rw [hprint, parseStatements_print h'] at hparse
    exact (Option.some.inj hparse).symm
  · intro p p' h h' hprint
    have hparse := parseProgram_print h
    rw [hprint, parseProgram_print h'] at hparse
    exact (Option.some.inj hparse).symm

def minusPower : Expr :=
  .unary .negate (.unary .negate (.binary .power (.unary .negate (.variable "a b"))
    (.call "Math.abs" [.num (-1)])))

def choices : List Stmt :=
  [.branch minusPower [.breaking] [.branch (.variable "x") [] [.expr minusPower, .branch .null [] []]]]

theorem minusPower_wellNamed : minusPower.WellNamed := by
  have habs : IsFunction "Math.abs" := ⟨"Math", by decide, ["abs"], by simp; decide, rfl⟩
  simp [minusPower, Expr.WellNamed, Expr.AllWellNamed, Expr.num, habs]

theorem choices_wellNamed : BodyWellNamed choices := by
  simp [choices, BodyWellNamed, Stmt.WellNamed, minusPower_wellNamed, Expr.WellNamed]

theorem choices_print_determines_shape :
    minusPower.WellNamed ∧ BodyWellNamed choices ∧
    parseExpr minusPower.print = some minusPower.shape ∧
    parseStatements (printStatements choices) = some (bodyShape choices) ∧
    parseProgram (Program.print ⟨["x", "a b"], choices⟩) =
      some (Program.shape ⟨["x", "a b"], choices⟩) :=
  have hexpr := minusPower_wellNamed
  have hbody := choices_wellNamed
  ⟨hexpr, hbody, print_determines_shape.1.1 _ hexpr, print_determines_shape.1.2.1 _ hbody,
    print_determines_shape.1.2.2 _ hbody⟩

end Blockwork.Target
