import Blockwork.Proofs.Target.Written

/-! Written statements as rows of tokens. Every statement ends with its line, so that its tokens do not
depend on what follows. -/

namespace Blockwork.Target

mutual

def Stmt.WellNamed : Stmt → Prop
  | .expr e => e.WellNamed
  | .branch condition body otherwise =>
    condition.WellNamed ∧ BodyWellNamed body ∧ BodyWellNamed otherwise
  | .whileLoop condition body => condition.WellNamed ∧ BodyWellNamed body
  | .forLoop start condition update body =>
    start.WellNamed ∧ condition.WellNamed ∧ update.WellNamed ∧ BodyWellNamed body
  | .forEach _ sequence body => sequence.WellNamed ∧ BodyWellNamed body
  | .breaking | .continuing => True

def BodyWellNamed : List Stmt → Prop
  | [] => True
  | s :: rest => s.WellNamed ∧ BodyWellNamed rest

end

namespace Expr

def lineTokens (e : Expr) : List Token := e.tokensAt assignStrength

end Expr

def headTokens (inner : List Token) : List Token :=
  .sign "(" :: (inner ++ [.sign ")", .sign "\x7b"])

mutual

def Stmt.tokens : Stmt → List Token
  | .expr e => e.lineTokens ++ [.sign ";"]
  | .branch condition body otherwise =>
    .word "if" :: headTokens condition.lineTokens ++
      (bodyTokens body ++ .sign "\x7d" :: elseTokens otherwise)
  | .whileLoop condition body =>
    .word "while" :: headTokens condition.lineTokens ++ (bodyTokens body ++ [.sign "\x7d"])
  | .forLoop start condition update body =>
    .word "for" :: headTokens (start.lineTokens ++ .sign ";" :: (condition.lineTokens ++
      .sign ";" :: update.lineTokens)) ++ (bodyTokens body ++ [.sign "\x7d"])
  | .forEach name sequence body =>
    .word "for" :: headTokens (.word (identifier name) :: .word "of" :: sequence.lineTokens) ++
      (bodyTokens body ++ [.sign "\x7d"])
  | .breaking => [.word "break", .sign ";"]
  | .continuing => [.word "continue", .sign ";"]

def bodyTokens : List Stmt → List Token
  | [] => []
  | s :: rest => s.tokens ++ bodyTokens rest

def elseTokens : List Stmt → List Token
  | [] => []
  | [.branch condition body otherwise] =>
    .word "else" :: .word "if" :: headTokens condition.lineTokens ++
      (bodyTokens body ++ .sign "\x7d" :: elseTokens otherwise)
  | s :: rest =>
    .word "else" :: .sign "\x7b" :: (s.tokens ++ bodyTokens rest) ++ [.sign "\x7d"]

end

namespace Lexes

variable {rest : List Char} {ts : List Token}

theorem spaces (n : Nat) : Lexes (List.replicate n ' ') [] rest := by
  induction n with
  | zero => exact .nil
  | succ n ih => exact .skip rfl ih

theorem line {text : String} (depth : Nat) (h : Lexes text.toList ts ('\n' :: rest)) :
    Lexes (Target.line depth text).toList ts rest := by
  have hline : (Target.line depth text).toList =
      List.replicate (2 * depth) ' ' ++ (text.toList ++ ['\n']) := by
    simp [Target.line]
  have hend : Lexes (text.toList ++ ['\n']) (ts ++ []) rest := h.append (.space rfl)
  rw [hline, ← List.append_nil ts]
  exact (spaces _).append hend

theorem wordSpace {w : String} (h : isWord w = true) {bs : List Char} (hbs : Lexes bs ts rest) :
    Lexes (w.toList ++ ' ' :: bs) (.word w :: ts) rest := by
  have hspace : Apart (' ' :: bs ++ rest) := by
    intro c hc
    obtain rfl : ' ' = c := by simpa using hc
    rfl
  exact (word h hspace).append (hbs.skip rfl)

theorem head {inner : String} (h : ∀ bs, Lexes inner.toList ts (')' :: bs)) :
    Lexes ("(" ++ inner ++ ") \x7b").toList (headTokens ts) rest := by
  have hbrace : Lexes (' ' :: "\x7b".toList) [.sign "\x7b"] rest :=
    .skip rfl (.mark (by decide))
  have hclose : Lexes (")".toList ++ ' ' :: "\x7b".toList) [.sign ")", .sign "\x7b"] rest :=
    (mark (by decide)).append hbrace
  have hinner := (h (' ' :: "\x7b".toList ++ rest)).append hclose
  have hhead : ("(" ++ inner ++ ") \x7b").toList =
      "(".toList ++ (inner.toList ++ (")".toList ++ ' ' :: "\x7b".toList)) := by
    simp
  rw [hhead]
  exact (mark (s := "(") (by decide)).append hinner

end Lexes

namespace Expr

theorem lexes_print {e : Expr} (h : e.WellNamed) {rest : List Char} (hrest : Clear rest) :
    Lexes e.print.toList e.lineTokens rest :=
  lexes_wrap assignStrength (lexes_bare e h) (.inl hrest)

end Expr

variable {rest : List Char} {ts us : List Token}

theorem lexes_line {text : String} (depth : Nat) (h : ∀ bs, Lexes text.toList ts bs) (bs : List Char) :
    Lexes (line depth text).toList ts bs :=
  .line depth (h _)

theorem lexes_block {opening body : List Char} (depth : Nat) (rest : List Char)
    (hopening : ∀ bs, Lexes opening ts bs) (hbody : ∀ bs, Lexes body us bs) :
    Lexes (opening ++ (body ++ (line depth "\x7d").toList)) (ts ++ (us ++ [.sign "\x7d"])) rest :=
  (hopening _).append ((hbody _).append (.line depth (.mark (by decide))))

theorem lexes_headed (w : String) {inner : String} (hw : isWord w = true)
    (h : ∀ bs, Lexes inner.toList ts (')' :: bs)) (rest : List Char) :
    Lexes (w ++ " (" ++ inner ++ ") \x7b").toList (.word w :: headTokens ts) rest := by
  have htext : (w ++ " (" ++ inner ++ ") \x7b").toList =
      w.toList ++ ' ' :: ("(" ++ inner ++ ") \x7b").toList := by
    simp
  rw [htext]
  exact .wordSpace hw (.head h)

theorem lexes_semicolon {bs : List Char} (h : Lexes bs ts rest) :
    Lexes (";".toList ++ ' ' :: bs) (.sign ";" :: ts) rest :=
  (Lexes.mark (by decide)).append (h.skip rfl)

theorem lexes_jump {w : String} (h : isWord w = true) (depth : Nat) :
    Lexes (line depth (w ++ ";")).toList [.word w, .sign ";"] rest := by
  have hend : Lexes ";".toList [.sign ";"] ('\n' :: rest) := .mark (by decide)
  refine .line depth ?_
  rw [String.toList_append]
  exact (Lexes.word h (Expr.clear_of_semicolon _).apart).append hend

theorem lexes_steps {start condition update : Expr} (hstart : start.WellNamed)
    (hcondition : condition.WellNamed) (hupdate : update.WellNamed) (bs : List Char) :
    Lexes (start.print ++ "; " ++ condition.print ++ "; " ++ update.print).toList
      (start.lineTokens ++ .sign ";" :: (condition.lineTokens ++ .sign ";" :: update.lineTokens))
      (')' :: bs) := by
  have hlast := update.lexes_print hupdate (Expr.clear_of_close bs)
  have hsecond := (condition.lexes_print hcondition (Expr.clear_of_semicolon _)).append
    (lexes_semicolon hlast)
  have hfirst := (start.lexes_print hstart (Expr.clear_of_semicolon _)).append
    (lexes_semicolon hsecond)
  have hprint : (start.print ++ "; " ++ condition.print ++ "; " ++ update.print).toList =
      start.print.toList ++ (";".toList ++ ' ' :: (condition.print.toList ++
        (";".toList ++ ' ' :: update.print.toList))) := by
    simp
  rw [hprint]
  exact hfirst

theorem lexes_each (name : String) {sequence : Expr} (h : sequence.WellNamed) (bs : List Char) :
    Lexes (identifier name ++ " of " ++ sequence.print).toList
      (.word (identifier name) :: .word "of" :: sequence.lineTokens) (')' :: bs) := by
  have hsequence := sequence.lexes_print h (Expr.clear_of_close bs)
  have hof := Lexes.wordSpace (w := "of") (by decide) hsequence
  have hprint : (identifier name ++ " of " ++ sequence.print).toList =
      (identifier name).toList ++ ' ' :: ("of".toList ++ ' ' :: sequence.print.toList) := by
    simp
  rw [hprint]
  exact .wordSpace (isWord_identifier name) hof

theorem lexes_condition (w : String) (hw : isWord w = true) {condition : Expr}
    (h : condition.WellNamed) (rest : List Char) :
    Lexes (w ++ " (" ++ condition.print ++ ") \x7b").toList
      (.word w :: headTokens condition.lineTokens) rest :=
  lexes_headed w hw (fun bs => condition.lexes_print h (Expr.clear_of_close bs)) rest

theorem lexes_closing {opening : String} (depth : Nat)
    (h : ∀ bs, Lexes opening.toList ts bs) (rest : List Char) :
    Lexes (line depth ("\x7d else " ++ opening)).toList (.sign "\x7d" :: .word "else" :: ts) rest := by
  have helse : Lexes ("else".toList ++ ' ' :: opening.toList) (.word "else" :: ts) ('\n' :: rest) :=
    .wordSpace (by decide) (h _)
  have hclose : Lexes "\x7d".toList [.sign "\x7d"]
      (' ' :: ("else".toList ++ ' ' :: opening.toList) ++ '\n' :: rest) := .mark (by decide)
  refine .line depth ?_
  rw [String.toList_append]
  exact hclose.append (helse.skip rfl)

theorem lexes_elseBlock {s : Stmt} {body : List Stmt} (depth : Nat)
    (hlone : ∀ condition then_ otherwise, s = .branch condition then_ otherwise → body ≠ [])
    (hstmt : ∀ bs, Lexes (s.printAt (depth + 1)).toList s.tokens bs)
    (hbody : ∀ bs, Lexes (printBody (depth + 1) body).toList (bodyTokens body) bs) :
    Lexes (printElse depth (s :: body)).toList (.sign "\x7d" :: elseTokens (s :: body)) rest := by
  have hbrace : ∀ bs, Lexes "\x7b".toList [.sign "\x7b"] bs := fun _ => .mark (by decide)
  have hblock := lexes_block depth rest (lexes_closing depth hbrace)
    fun bs => (hstmt _).append (hbody bs)
  rw [printElse, elseTokens, String.append_assoc, String.append_assoc, String.toList_append,
    String.toList_append, String.toList_append]
  · rw [List.append_assoc] at hblock
    exact hblock
  · exact fun c t o hs hb => hlone c t o hs hb
  · exact fun c t o hs hb => hlone c t o hs hb

mutual

theorem lexes_stmt : ∀ (s : Stmt), s.WellNamed → ∀ depth rest,
    Lexes (s.printAt depth).toList s.tokens rest
  | .expr e, h, depth, rest => by
    have hprint := fun bs => e.lexes_print h (Expr.clear_of_semicolon bs)
    rw [Stmt.printAt]
    refine .line depth ?_
    rw [String.toList_append]
    exact (hprint _).append (.mark (by decide))
  | .branch condition body otherwise, h, depth, rest => by
    have hopening := lexes_line depth (lexes_condition "if" (by decide) h.1)
    have hbody := lexes_body body h.2.1 (depth + 1)
    have helse := lexes_else otherwise h.2.2 depth rest
    rw [Stmt.printAt, String.append_assoc, String.toList_append, String.toList_append]
    exact (hopening _).append ((hbody _).append helse)
  | .whileLoop condition body, h, depth, rest => by
    have hopening := lexes_line depth (lexes_condition "while" (by decide) h.1)
    have hbody := lexes_body body h.2 (depth + 1)
    rw [Stmt.printAt, String.append_assoc, String.toList_append, String.toList_append]
    exact lexes_block depth rest hopening hbody
  | .forLoop start condition update body, h, depth, rest => by
    have hopening := lexes_line depth
      (lexes_headed "for" (by decide) (lexes_steps h.1 h.2.1 h.2.2.1))
    have hbody := lexes_body body h.2.2.2 (depth + 1)
    have hprint : (Stmt.forLoop start condition update body).printAt depth =
        line depth ("for" ++ " (" ++ (start.print ++ "; " ++ condition.print ++ "; " ++ update.print) ++
          ") \x7b") ++ (printBody (depth + 1) body ++ line depth "\x7d") := by
      have hfor : "for (" = "for" ++ " (" := rfl
      simp only [Stmt.printAt, hfor, String.append_assoc]
    rw [hprint, String.toList_append, String.toList_append]
    exact lexes_block depth rest hopening hbody
  | .forEach name sequence body, h, depth, rest => by
    have hopening := lexes_line depth (lexes_headed "for" (by decide) (lexes_each name h.1))
    have hbody := lexes_body body h.2 (depth + 1)
    have hprint : (Stmt.forEach name sequence body).printAt depth =
        line depth ("for" ++ " (" ++ (identifier name ++ " of " ++ sequence.print) ++ ") \x7b") ++
          (printBody (depth + 1) body ++ line depth "\x7d") := by
      have hfor : "for (" = "for" ++ " (" := rfl
      simp only [Stmt.printAt, hfor, String.append_assoc]
    rw [hprint, String.toList_append, String.toList_append]
    exact lexes_block depth rest hopening hbody
  | .breaking, _, depth, rest => lexes_jump (w := "break") (by decide) depth
  | .continuing, _, depth, rest => lexes_jump (w := "continue") (by decide) depth

theorem lexes_body : ∀ (body : List Stmt), BodyWellNamed body → ∀ depth rest,
    Lexes (printBody depth body).toList (bodyTokens body) rest
  | [], _, depth, rest => .nil
  | s :: body, h, depth, rest => by
    rw [printBody, bodyTokens, String.toList_append]
    exact (lexes_stmt s h.1 depth _).append (lexes_body body h.2 depth rest)

theorem lexes_else : ∀ (otherwise : List Stmt), BodyWellNamed otherwise → ∀ depth rest,
    Lexes (printElse depth otherwise).toList (.sign "\x7d" :: elseTokens otherwise) rest
  | [], _, depth, rest => .line depth (.mark (by decide))
  | [.branch condition body otherwise], h, depth, rest => by
    have hbody := lexes_body body h.1.2.1 (depth + 1)
    have helse := lexes_else otherwise h.1.2.2 depth rest
    have hopening := lexes_closing depth (lexes_condition "if" (by decide) h.1.1)
    have hprint : printElse depth [.branch condition body otherwise] =
        line depth ("\x7d else " ++ ("if" ++ " (" ++ condition.print ++ ") \x7b")) ++
          (printBody (depth + 1) body ++ printElse depth otherwise) := by
      have hif : "\x7d else if (" = "\x7d else " ++ ("if" ++ " (") := rfl
      simp only [printElse, hif, String.append_assoc]
    rw [hprint, String.toList_append, String.toList_append]
    exact (hopening _).append ((hbody _).append helse)
  | .branch condition then_ otherwise :: s :: body, h, depth, rest =>
    lexes_elseBlock depth (fun _ _ _ _ => List.cons_ne_nil s body)
      (lexes_stmt (.branch condition then_ otherwise) h.1 (depth + 1))
      (lexes_body (s :: body) h.2 (depth + 1))
  | .expr e :: body, h, depth, rest =>
    lexes_elseBlock depth (fun _ _ _ hs => absurd hs (by simp)) (lexes_stmt (.expr e) h.1 (depth + 1))
      (lexes_body body h.2 (depth + 1))
  | .whileLoop condition inner :: body, h, depth, rest =>
    lexes_elseBlock depth (fun _ _ _ hs => absurd hs (by simp))
      (lexes_stmt (.whileLoop condition inner) h.1 (depth + 1)) (lexes_body body h.2 (depth + 1))
  | .forLoop start condition update inner :: body, h, depth, rest =>
    lexes_elseBlock depth (fun _ _ _ hs => absurd hs (by simp))
      (lexes_stmt (.forLoop start condition update inner) h.1 (depth + 1))
      (lexes_body body h.2 (depth + 1))
  | .forEach name sequence inner :: body, h, depth, rest =>
    lexes_elseBlock depth (fun _ _ _ hs => absurd hs (by simp))
      (lexes_stmt (.forEach name sequence inner) h.1 (depth + 1)) (lexes_body body h.2 (depth + 1))
  | .breaking :: body, h, depth, rest =>
    lexes_elseBlock depth (fun _ _ _ hs => absurd hs (by simp)) (lexes_stmt .breaking h.1 (depth + 1))
      (lexes_body body h.2 (depth + 1))
  | .continuing :: body, h, depth, rest =>
    lexes_elseBlock depth (fun _ _ _ hs => absurd hs (by simp)) (lexes_stmt .continuing h.1 (depth + 1))
      (lexes_body body h.2 (depth + 1))

end

end Blockwork.Target
