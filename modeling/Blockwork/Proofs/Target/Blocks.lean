import Blockwork.Proofs.Target.Listing
import Blockwork.Proofs.Target.ReadBack

/-! The grammar of written statements. A branch as the whole of an else is read as its only
statement, and each statement is read back from its tokens. -/

namespace Blockwork.Target

inductive StmtTree where
  | expr (t : Tree)
  | branch (condition : Tree) (body otherwise : List StmtTree)
  | whileLoop (condition : Tree) (body : List StmtTree)
  | forLoop (start condition update : Tree) (body : List StmtTree)
  | forEach (written : String) (sequence : Tree) (body : List StmtTree)
  | breaking
  | continuing

structure Blocks where
  stmt : Reader StmtTree
  row : Reader (List StmtTree)

def readHead : Reader Tree
  | .sign "(" :: rest => closed ")" readPhrase rest
  | _ => none

namespace Blocks

variable (b : Blocks)

def block : Reader (List StmtTree)
  | .sign "\x7b" :: rest => closed "\x7d" b.row rest
  | _ => none

def otherwise : Reader (List StmtTree)
  | .word "else" :: .word "if" :: rest =>
    (b.stmt (.word "if" :: rest)).map fun (s, rest) => ([s], rest)
  | .word "else" :: rest => b.block rest
  | ts => some ([], ts)

def branch : Reader StmtTree := fun ts => do
  let (condition, ts) ← readHead ts
  let (body, ts) ← b.block ts
  let (otherwise, ts) ← b.otherwise ts
  return (.branch condition body otherwise, ts)

def whileLoop : Reader StmtTree := fun ts => do
  let (condition, ts) ← readHead ts
  let (body, ts) ← b.block ts
  return (.whileLoop condition body, ts)

def forLoop : Reader StmtTree := fun ts => do
  let (start, ts) ← closed ";" readPhrase ts
  let (condition, ts) ← closed ";" readPhrase ts
  let (update, ts) ← closed ")" readPhrase ts
  let (body, ts) ← b.block ts
  return (.forLoop start condition update body, ts)

def forEach (written : String) : Reader StmtTree := fun ts => do
  let (sequence, ts) ← closed ")" readPhrase ts
  let (body, ts) ← b.block ts
  return (.forEach written sequence body, ts)

/-- Two words in a row begin no phrase, unless the first one is an operator. -/
def loop : Reader StmtTree
  | .word w :: .word "of" :: rest =>
    if w ∈ reserved then b.forLoop (.word w :: .word "of" :: rest) else b.forEach w rest
  | ts => b.forLoop ts

def stmtFrom : Reader StmtTree
  | .word "break" :: .sign ";" :: rest => some (.breaking, rest)
  | .word "continue" :: .sign ";" :: rest => some (.continuing, rest)
  | .word "if" :: rest => b.branch rest
  | .word "while" :: rest => b.whileLoop rest
  | .word "for" :: .sign "(" :: rest => b.loop rest
  | ts => (closed ";" readPhrase ts).map fun (t, rest) => (.expr t, rest)

def rowFrom : Reader (List StmtTree)
  | [] => some ([], [])
  | .sign "\x7d" :: rest => some ([], .sign "\x7d" :: rest)
  | ts => do
    let (s, ts) ← b.stmt ts
    let (more, ts) ← b.row ts
    return (s :: more, ts)

end Blocks

def blocks : Nat → Blocks
  | 0 => ⟨fun _ => none, fun _ => none⟩
  | n + 1 => ⟨(blocks n).stmtFrom, (blocks n).rowFrom⟩

def readStatements (ts : List Token) : Option (List StmtTree) :=
  match (blocks (2 * ts.length + 2)).row ts with
  | some (body, []) => some body
  | _ => none

/-! ### Rules -/

structure ReadsStmt (ts : List Token) (s : StmtTree) (rest : List Token) : Prop where
  shorter : rest.length < ts.length
  gives : ∀ n, 2 * ts.length + 1 ≤ n → (blocks n).stmt ts = some (s, rest)

structure ReadsRow (ts : List Token) (body : List StmtTree) (rest : List Token) : Prop where
  shorter : rest.length ≤ ts.length
  gives : ∀ n, 2 * ts.length + 2 ≤ n → (blocks n).row ts = some (body, rest)

structure ReadsBlock (ts : List Token) (body : List StmtTree) (rest : List Token) : Prop where
  shorter : rest.length < ts.length
  gives : ∀ n, 2 * ts.length ≤ n → (blocks n).block ts = some (body, rest)

structure ReadsElse (ts : List Token) (otherwise : List StmtTree) (rest : List Token) : Prop where
  shorter : rest.length ≤ ts.length
  gives : ∀ n, 2 * ts.length ≤ n → (blocks n).otherwise ts = some (otherwise, rest)

variable {ts rest r₁ r₂ r₃ : List Token} {t t' t'' : Tree} {s : StmtTree}
  {body otherwise : List StmtTree}

theorem ReadsStmt.of_next (hshorter : rest.length < ts.length)
    (h : ∀ n, 2 * ts.length ≤ n → (blocks n).stmtFrom ts = some (s, rest)) : ReadsStmt ts s rest := by
  refine ⟨hshorter, fun n hn => ?_⟩
  obtain ⟨m, rfl⟩ : ∃ m, n = m + 1 := ⟨n - 1, by omega⟩
  exact h m (by omega)

theorem ReadsRow.of_next (hshorter : rest.length ≤ ts.length)
    (h : ∀ n, 2 * ts.length + 1 ≤ n → (blocks n).rowFrom ts = some (body, rest)) :
    ReadsRow ts body rest := by
  refine ⟨hshorter, fun n hn => ?_⟩
  obtain ⟨m, rfl⟩ : ∃ m, n = m + 1 := ⟨n - 1, by omega⟩
  exact h m (by omega)

theorem Reads.readPhrase (h : Reads assignStrength ts t rest) : readPhrase ts = some (t, rest) :=
  h.gives _ (by show _ ≤ _ + 1; omega)

theorem Reads.closed {mark : String} (h : Reads assignStrength ts t (.sign mark :: rest)) :
    Target.closed mark Target.readPhrase ts = some (t, rest) :=
  closed_eq h.readPhrase

theorem Reads.head (h : Reads assignStrength ts t (.sign ")" :: rest)) :
    readHead (.sign "(" :: ts) = some (t, rest) :=
  h.closed

theorem ReadsRow.nil (h : ∀ u ∈ ts.head?, u = .sign "\x7d") : ReadsRow ts [] ts := by
  refine .of_next (Nat.le_refl _) fun n _ => ?_
  cases ts with
  | nil => rfl
  | cons u us =>
    obtain rfl := h u rfl
    rfl

theorem ReadsRow.cons (hbrace : ∀ u ∈ ts.head?, u ≠ .sign "\x7d") (h : ReadsStmt ts s r₁)
    (hmore : ReadsRow r₁ body rest) : ReadsRow ts (s :: body) rest := by
  have hr₁ := h.shorter
  have hrest := hmore.shorter
  refine .of_next (by omega) fun n hn => ?_
  unfold Blocks.rowFrom
  split
  · exact absurd hr₁ (by simp)
  · exact absurd rfl (hbrace _ rfl)
  · show ((blocks n).stmt ts >>= _) = _
    rw [h.gives n (by omega)]
    show ((blocks n).row r₁ >>= _) = _
    rw [hmore.gives n (by omega)]
    rfl

theorem ReadsBlock.of_row (h : ReadsRow ts body (.sign "\x7d" :: rest)) :
    ReadsBlock (.sign "\x7b" :: ts) body rest := by
  have hrest := h.shorter
  rw [List.length_cons] at hrest
  refine ⟨by rw [List.length_cons]; omega, fun n hn => ?_⟩
  rw [List.length_cons] at hn
  exact closed_eq (h.gives n (by omega))

theorem ReadsElse.nil (h : ∀ u ∈ ts.head?, u ≠ .word "else") : ReadsElse ts [] ts := by
  refine ⟨Nat.le_refl _, fun n _ => ?_⟩
  unfold Blocks.otherwise
  split
  · exact absurd rfl (h _ rfl)
  · exact absurd rfl (h _ rfl)
  · rfl

theorem ReadsElse.lone (h : ReadsStmt (.word "if" :: ts) s rest) :
    ReadsElse (.word "else" :: .word "if" :: ts) [s] rest := by
  have hrest := h.shorter
  rw [List.length_cons] at hrest
  refine ⟨by simp only [List.length_cons]; omega, fun n hn => ?_⟩
  simp only [List.length_cons] at hn
  rw [Blocks.otherwise, h.gives n (by simp only [List.length_cons]; omega)]
  rfl

theorem ReadsElse.block (h : ReadsBlock (.sign "\x7b" :: ts) body rest) :
    ReadsElse (.word "else" :: .sign "\x7b" :: ts) body rest := by
  have hrest := h.shorter
  rw [List.length_cons] at hrest
  refine ⟨by simp only [List.length_cons]; omega, fun n hn => ?_⟩
  simp only [List.length_cons] at hn
  exact h.gives n (by simp only [List.length_cons]; omega)

def keywords : List String := ["break", "continue", "if", "while", "for", "else", "var"]

theorem Reads.ne_keyword {k : Nat} (h : Reads k ts t rest) :
    ∀ u ∈ ts.head?, ∀ w ∈ keywords, u ≠ .word w := by
  rintro u hu w hw rfl
  obtain ⟨us, rfl⟩ : ∃ us, ts = .word w :: us := List.head?_eq_some_iff.1 hu
  have hatom : ∀ r : Readers, r.atom (.word w :: us) = none := by
    have hword : w ∉ helpers ∧ constants.lookup w = none ∧ w ∈ reserved := by
      have hall : ∀ w ∈ keywords, w ∉ helpers ∧ constants.lookup w = none ∧ w ∈ reserved := by decide
      exact hall w hw
    intro r
    rw [Readers.atom, Readers.word, if_neg hword.1, hword.2.1]
    exact if_pos hword.2.2
  have hplain : prefix? (.word w :: us) = none := by
    unfold prefix?
    split
    · rename_i heq
      exact absurd (List.cons.inj heq).1 (by simp)
    · rename_i heq
      exact absurd (List.cons.inj heq).1 (by simp)
    · rename_i heq
      obtain rfl : w = "typeof" := by simpa using (List.cons.inj heq).1
      exact absurd hw (by decide)
    · rfl
  have hread := h.gives _ (Nat.le_add_right _ _)
  rw [phrase_eq_none hplain hatom] at hread
  exact absurd hread (by simp)

theorem ReadsStmt.expr (h : Reads assignStrength ts t (.sign ";" :: rest)) :
    ReadsStmt ts (.expr t) rest := by
  have hrest := h.shorter
  have hword : ∀ {w : String} {us : List Token}, ts = .word w :: us → w ∉ keywords := by
    rintro w us rfl hw
    exact h.ne_keyword _ rfl w hw rfl
  rw [List.length_cons] at hrest
  refine .of_next (by omega) fun n _ => ?_
  unfold Blocks.stmtFrom
  split
  · exact absurd (by decide) (hword rfl)
  · exact absurd (by decide) (hword rfl)
  · exact absurd (by decide) (hword rfl)
  · exact absurd (by decide) (hword rfl)
  · exact absurd (by decide) (hword rfl)
  · rw [h.closed]
    rfl

theorem ReadsStmt.breaking : ReadsStmt (.word "break" :: .sign ";" :: rest) .breaking rest :=
  .of_next (by simp only [List.length_cons]; omega) fun _ _ => rfl

theorem ReadsStmt.continuing : ReadsStmt (.word "continue" :: .sign ";" :: rest) .continuing rest :=
  .of_next (by simp only [List.length_cons]; omega) fun _ _ => rfl

theorem ReadsStmt.branch (hcondition : Reads assignStrength ts t (.sign ")" :: r₁))
    (hbody : ReadsBlock r₁ body r₂) (helse : ReadsElse r₂ otherwise rest) :
    ReadsStmt (.word "if" :: .sign "(" :: ts) (.branch t body otherwise) rest := by
  have hr₁ := hcondition.shorter
  have hr₂ := hbody.shorter
  have hrest := helse.shorter
  rw [List.length_cons] at hr₁
  refine .of_next (by simp only [List.length_cons]; omega) fun n hn => ?_
  simp only [List.length_cons] at hn
  show (blocks n).branch (.sign "(" :: ts) = _
  simp [Blocks.branch, hcondition.head, hbody.gives n (by omega), helse.gives n (by omega)]

theorem ReadsStmt.whileLoop (hcondition : Reads assignStrength ts t (.sign ")" :: r₁))
    (hbody : ReadsBlock r₁ body rest) :
    ReadsStmt (.word "while" :: .sign "(" :: ts) (.whileLoop t body) rest := by
  have hr₁ := hcondition.shorter
  have hrest := hbody.shorter
  rw [List.length_cons] at hr₁
  refine .of_next (by simp only [List.length_cons]; omega) fun n hn => ?_
  simp only [List.length_cons] at hn
  show (blocks n).whileLoop (.sign "(" :: ts) = _
  simp [Blocks.whileLoop, hcondition.head, hbody.gives n (by omega)]

theorem Reads.loop {mark : String} (h : Reads assignStrength ts t (.sign mark :: r₁)) (b : Blocks) :
    b.loop ts = b.forLoop ts := by
  unfold Blocks.loop
  split
  · rename_i w us
    split
    · rfl
    · rename_i hw
      have hstops : Stops assignStrength (.word "of" :: us) := Expr.stops_of_reach (by decide) _
      have hname := ((Reads.name hw).down (Nat.le_refl _) (by decide) hstops).readPhrase
      rw [h.readPhrase] at hname
      exact absurd (Prod.mk.inj (Option.some.inj hname)).2 (by simp)
  · rfl

theorem ReadsStmt.forLoop (hstart : Reads assignStrength ts t (.sign ";" :: r₁))
    (hcondition : Reads assignStrength r₁ t' (.sign ";" :: r₂))
    (hupdate : Reads assignStrength r₂ t'' (.sign ")" :: r₃)) (hbody : ReadsBlock r₃ body rest) :
    ReadsStmt (.word "for" :: .sign "(" :: ts) (.forLoop t t' t'' body) rest := by
  have hr₁ := hstart.shorter
  have hr₂ := hcondition.shorter
  have hr₃ := hupdate.shorter
  have hrest := hbody.shorter
  rw [List.length_cons] at hr₁ hr₂ hr₃
  refine .of_next (by simp only [List.length_cons]; omega) fun n hn => ?_
  simp only [List.length_cons] at hn
  show (blocks n).loop ts = _
  simp [hstart.loop, Blocks.forLoop, hstart.closed, hcondition.closed, hupdate.closed,
    hbody.gives n (by omega)]

theorem ReadsStmt.forEach {written : String} (hwritten : written ∉ reserved)
    (hsequence : Reads assignStrength ts t (.sign ")" :: r₁)) (hbody : ReadsBlock r₁ body rest) :
    ReadsStmt (.word "for" :: .sign "(" :: .word written :: .word "of" :: ts)
      (.forEach written t body) rest := by
  have hr₁ := hsequence.shorter
  have hrest := hbody.shorter
  rw [List.length_cons] at hr₁
  refine .of_next (by simp only [List.length_cons]; omega) fun n hn => ?_
  simp only [List.length_cons] at hn
  have hloop : (blocks n).loop (.word written :: .word "of" :: ts) =
      (blocks n).forEach written ts := if_neg hwritten
  show (blocks n).loop (.word written :: .word "of" :: ts) = _
  simp [hloop, Blocks.forEach, hsequence.closed, hbody.gives n (by omega)]

end Blockwork.Target
