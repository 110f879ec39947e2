import Blockwork.Target.Print

/-! Parentheses around the operands of `??`, `||` and `&&`. The grammar of the written language has
no form in which an operand of `??` is a bare `||` or `&&`, nor one of these a bare `??`. Strengths
alone do not keep them apart: which expressions are written without a form. -/

namespace Blockwork.Target

/-- An expression as it stands in a text, with all its parentheses. -/
inductive Phrase where
  | null
  | boolean (b : Bool)
  | number (n : Number.Literal)
  | text (s : String)
  | list (items : List Phrase)
  | variable (name : String)
  | assign (name : String) (value : Phrase)
  | unary (op : UnaryOp) (operand : Phrase)
  | binary (op : BinaryOp) (left right : Phrase)
  | conditional (condition thenPhrase elsePhrase : Phrase)
  | call (function : String) (args : List Phrase)
  | method (receiver : Phrase) (name : String) (args : List Phrase)
  | member (object : Phrase) (property : String)
  | group (inner : Phrase)

namespace Phrase

mutual

def written : Phrase → String
  | .null => "null"
  | .boolean b => if b then "true" else "false"
  | .number n => Number.text n.value
  | .text s => Text.json.quote s
  | .list items => "[" ++ writtenArgs items ++ "]"
  | .variable name => identifier name
  | .assign name value => identifier name ++ " = " ++ value.written
  | .unary op operand => op.symbol ++ operand.written
  | .binary op left right => left.written ++ " " ++ op.symbol ++ " " ++ right.written
  | .conditional condition thenPhrase elsePhrase =>
    condition.written ++ " ? " ++ thenPhrase.written ++ " : " ++ elsePhrase.written
  | .call function args => function ++ "(" ++ writtenArgs args ++ ")"
  | .method receiver name args => receiver.written ++ "." ++ name ++ "(" ++ writtenArgs args ++ ")"
  | .member object property => object.written ++ "." ++ property
  | .group inner => "(" ++ inner.written ++ ")"

def writtenArgs : List Phrase → String
  | [] => ""
  | [arg] => arg.written
  | arg :: rest => arg.written ++ ", " ++ writtenArgs rest

end

mutual

def expr : Phrase → Expr
  | .null => .null
  | .boolean b => .boolean b
  | .number n => .number n
  | .text s => .text s
  | .list items => .list (exprs items)
  | .variable name => .variable name
  | .assign name value => .assign name value.expr
  | .unary op operand => .unary op operand.expr
  | .binary op left right => .binary op left.expr right.expr
  | .conditional condition thenPhrase elsePhrase =>
    .conditional condition.expr thenPhrase.expr elsePhrase.expr
  | .call function args => .call function (exprs args)
  | .method receiver name args => .method receiver.expr name (exprs args)
  | .member object property => .member object.expr property
  | .group inner => inner.expr

def exprs : List Phrase → List Expr
  | [] => []
  | p :: rest => p.expr :: exprs rest

end

def strength : Phrase → Nat
  | .assign .. => assignStrength
  | .conditional .. => conditionalStrength
  | .binary op .. => op.strength
  | .unary .. => unaryStrength
  | .number n => if n.isNegative then unaryStrength else atomStrength
  | .call .. | .method .. | .member .. => postfixStrength
  | _ => atomStrength

mutual

/-- Whatever stands in a place binds at least as strongly as the place asks, so that the text groups
as the phrase does. -/
def Groups : Phrase → Prop
  | .null | .boolean _ | .number _ | .text _ | .variable _ => True
  | .list items => GroupsAll items
  | .assign _ value => value.Groups
  | .unary _ operand => unaryStrength ≤ operand.strength ∧ operand.Groups
  | .binary op left right =>
    op.leftStrength ≤ left.strength ∧ op.rightStrength ≤ right.strength ∧ left.Groups ∧
      right.Groups
  | .conditional condition thenPhrase elsePhrase =>
    conditionalStrength < condition.strength ∧ condition.Groups ∧ thenPhrase.Groups ∧
      elsePhrase.Groups
  | .call _ args => GroupsAll args
  | .method receiver _ args => postfixStrength ≤ receiver.strength ∧ receiver.Groups ∧ GroupsAll args
  | .member object _ => postfixStrength ≤ object.strength ∧ object.Groups
  | .group inner => inner.Groups

def GroupsAll : List Phrase → Prop
  | [] => True
  | p :: rest => p.Groups ∧ GroupsAll rest

end

def operator? : Phrase → Option BinaryOp
  | .binary op .. => some op
  | _ => none

end Phrase

/-- One of the operators is `??`, the other one `||` or `&&`. -/
def BinaryOp.clashes (op inner : BinaryOp) : Bool :=
  op = .coalesce && (inner = .or || inner = .and) || (op = .or || op = .and) && inner = .coalesce

mutual

/-- Somewhere a bare operand clashes with the operator it belongs to. -/
def Phrase.Mixes : Phrase → Prop
  | .null | .boolean _ | .number _ | .text _ | .variable _ => False
  | .list items => MixesAny items
  | .assign _ value => value.Mixes
  | .unary _ operand => operand.Mixes
  | .binary op left right =>
    left.operator?.any op.clashes ∨ right.operator?.any op.clashes ∨ left.Mixes ∨ right.Mixes
  | .conditional condition thenPhrase elsePhrase =>
    condition.Mixes ∨ thenPhrase.Mixes ∨ elsePhrase.Mixes
  | .call _ args => MixesAny args
  | .method receiver _ args => receiver.Mixes ∨ MixesAny args
  | .member object _ => object.Mixes
  | .group inner => inner.Mixes

def Phrase.MixesAny : List Phrase → Prop
  | [] => False
  | p :: rest => p.Mixes ∨ MixesAny rest

end

namespace Expr

def enclose (e : Expr) (least : Nat) (p : Phrase) : Phrase :=
  if e.strength < least then .group p else p

mutual

def phraseAt (least : Nat) : Expr → Phrase
  | .null => enclose .null least .null
  | .boolean b => enclose (.boolean b) least (.boolean b)
  | .number n => enclose (.number n) least (.number n)
  | .text s => enclose (.text s) least (.text s)
  | .list items => enclose (.list items) least (.list (phrases items))
  | .variable name => enclose (.variable name) least (.variable name)
  | .assign name value =>
    enclose (.assign name value) least (.assign name (phraseAt assignStrength value))
  | .unary op operand =>
    enclose (.unary op operand) least (.unary op (phraseAt (operandStrength op operand) operand))
  | .binary op left right =>
    enclose (.binary op left right) least
      (.binary op (phraseAt op.leftStrength left) (phraseAt op.rightStrength right))
  | .conditional condition thenExpr elseExpr =>
    enclose (.conditional condition thenExpr elseExpr) least
      (.conditional (phraseAt (conditionalStrength + 1) condition) (phraseAt assignStrength thenExpr)
        (phraseAt assignStrength elseExpr))
  | .call function args => enclose (.call function args) least (.call function (phrases args))
  | .method receiver name args =>
    enclose (.method receiver name args) least
      (.method (phraseAt (receiverStrength receiver) receiver) name (phrases args))
  | .member object property =>
    enclose (.member object property) least
      (.member (phraseAt (receiverStrength object) object) property)

def phrases : List Expr → List Phrase
  | [] => []
  | e :: rest => phraseAt assignStrength e :: phrases rest

end

def phrase (e : Expr) : Phrase := e.phraseAt assignStrength

def operator? : Expr → Option BinaryOp
  | .binary op .. => some op
  | _ => none

end Expr

def BinaryOp.baresLeft (op inner : BinaryOp) : Bool :=
  op = .coalesce && (inner = .or || inner = .and) || op = .or && inner = .coalesce

/-- To the right of `??` only `&&` binds strongly enough to stay bare. -/
def BinaryOp.baresRight (op inner : BinaryOp) : Bool := op = .coalesce && inner = .and

namespace Expr

mutual

/-- Somewhere `??` has an `||` or `&&` to its left or an `&&` to its right, or `||` has a `??` to its
left. -/
def Mixes : Expr → Prop
  | .null | .boolean _ | .number _ | .text _ | .variable _ => False
  | .list items => MixesAny items
  | .assign _ value => value.Mixes
  | .unary _ operand => operand.Mixes
  | .binary op left right =>
    left.operator?.any op.baresLeft ∨ right.operator?.any op.baresRight ∨ left.Mixes ∨ right.Mixes
  | .conditional condition thenExpr elseExpr =>
    condition.Mixes ∨ thenExpr.Mixes ∨ elseExpr.Mixes
  | .call _ args => MixesAny args
  | .method receiver _ args => receiver.Mixes ∨ MixesAny args
  | .member object _ => object.Mixes

def MixesAny : List Expr → Prop
  | [] => False
  | e :: rest => e.Mixes ∨ MixesAny rest

end

/-! ### Parentheses -/

variable (e : Expr) (least : Nat) (p : Phrase)

theorem written_enclose : (e.enclose least p).written = e.wrap least p.written := by
  unfold enclose wrap
  split
  · rw [Phrase.written]
  · rfl

theorem expr_enclose : (e.enclose least p).expr = p.expr := by
  unfold enclose
  split
  · rw [Phrase.expr]
  · rfl

theorem groups_enclose : (e.enclose least p).Groups ↔ p.Groups := by
  unfold enclose
  split
  · rw [Phrase.Groups]
  · rfl

theorem mixes_enclose : (e.enclose least p).Mixes ↔ p.Mixes := by
  unfold enclose
  split
  · rw [Phrase.Mixes]
  · rfl

variable {e least p}

theorem le_strength_enclose (hleast : least ≤ atomStrength) (h : p.strength = e.strength) :
    least ≤ (e.enclose least p).strength := by
  unfold enclose
  split
  · exact hleast
  · rw [h]
    omega

variable (e least)

theorem le_strength_phraseAt (hleast : least ≤ atomStrength) :
    least ≤ (e.phraseAt least).strength := by
  cases e <;> rw [phraseAt] <;> exact le_strength_enclose hleast rfl

/-- A row of operators is bare just where its place asks for no more than its strength. -/
theorem operator?_phraseAt :
    (e.phraseAt least).operator? = e.operator?.filter fun op => least ≤ op.strength := by
  cases e with
  | binary op left right =>
    rw [phraseAt, enclose, show (binary op left right).strength = op.strength from rfl]
    by_cases h : op.strength < least
    · simp [h, operator?, Phrase.operator?, Option.filter]
    · simp [h, Nat.not_lt.1 h, operator?, Phrase.operator?, Option.filter]
  | _ =>
    rw [phraseAt, enclose]
    split <;> rfl

/-! ### The text -/

mutual

theorem written_phraseAt : ∀ (e : Expr) (least : Nat), (e.phraseAt least).written = e.printAt least
  | .null, least | .boolean _, least | .number _, least | .text _, least | .variable _, least => by
    rw [phraseAt, printAt, written_enclose, Phrase.written]
  | .list items, least => by
    rw [phraseAt, printAt, written_enclose, Phrase.written, written_phrases items]
  | .assign name value, least => by
    rw [phraseAt, printAt, written_enclose, Phrase.written, written_phraseAt value]
  | .unary op operand, least => by
    rw [phraseAt, printAt, written_enclose, Phrase.written, written_phraseAt operand]
  | .binary op left right, least => by
    rw [phraseAt, printAt, written_enclose, Phrase.written, written_phraseAt left,
      written_phraseAt right]
  | .conditional condition thenExpr elseExpr, least => by
    rw [phraseAt, printAt, written_enclose, Phrase.written, written_phraseAt condition,
      written_phraseAt thenExpr, written_phraseAt elseExpr]
  | .call function args, least => by
    rw [phraseAt, printAt, written_enclose, Phrase.written, written_phrases args]
  | .method receiver name args, least => by
    rw [phraseAt, printAt, written_enclose, Phrase.written, written_phraseAt receiver,
      written_phrases args]
  | .member object property, least => by
    rw [phraseAt, printAt, written_enclose, Phrase.written, written_phraseAt object]

theorem written_phrases : ∀ es : List Expr, Phrase.writtenArgs (phrases es) = printArgs es
  | [] => rfl
  | [arg] => written_phraseAt arg assignStrength
  | arg :: arg' :: rest => by
    have hrest := written_phrases (arg' :: rest)
    simp only [phrases] at hrest
    simp only [phrases, Phrase.writtenArgs, printArgs, written_phraseAt arg, hrest]

end

mutual

theorem expr_phraseAt : ∀ (e : Expr) (least : Nat), (e.phraseAt least).expr = e
  | .null, least | .boolean _, least | .number _, least | .text _, least | .variable _, least => by
    rw [phraseAt, expr_enclose, Phrase.expr]
  | .list items, least => by
    rw [phraseAt, expr_enclose, Phrase.expr, exprs_phrases items]
  | .assign name value, least => by
    rw [phraseAt, expr_enclose, Phrase.expr, expr_phraseAt value]
  | .unary op operand, least => by
    rw [phraseAt, expr_enclose, Phrase.expr, expr_phraseAt operand]
  | .binary op left right, least => by
    rw [phraseAt, expr_enclose, Phrase.expr, expr_phraseAt left, expr_phraseAt right]
  | .conditional condition thenExpr elseExpr, least => by
    rw [phraseAt, expr_enclose, Phrase.expr, expr_phraseAt condition, expr_phraseAt thenExpr,
      expr_phraseAt elseExpr]
  | .call function args, least => by
    rw [phraseAt, expr_enclose, Phrase.expr, exprs_phrases args]
  | .method receiver name args, least => by
    rw [phraseAt, expr_enclose, Phrase.expr, expr_phraseAt receiver, exprs_phrases args]
  | .member object property, least => by
    rw [phraseAt, expr_enclose, Phrase.expr, expr_phraseAt object]

theorem exprs_phrases : ∀ es : List Expr, Phrase.exprs (phrases es) = es
  | [] => rfl
  | e :: rest => by rw [phrases, Phrase.exprs, expr_phraseAt e, exprs_phrases rest]

end

theorem operandStrength_between (op : UnaryOp) (operand : Expr) :
    unaryStrength ≤ operandStrength op operand ∧ operandStrength op operand ≤ atomStrength := by
  unfold operandStrength
  split <;> decide

theorem postfixStrength_le_receiver (receiver : Expr) :
    postfixStrength ≤ (receiver.phraseAt (receiverStrength receiver)).strength := by
  by_cases h : receiver.isNumber = true
  · cases receiver with
    | number n =>
      have hwrap : (number n).strength < receiverStrength (number n) := by
        show (if n.isNegative then unaryStrength else atomStrength) < atomStrength + 1
        split <;> decide
      rw [phraseAt, enclose, if_pos hwrap]
      exact Nat.le_succ postfixStrength
    | _ => exact absurd h Bool.false_ne_true
  · rw [receiverStrength, if_neg h]
    exact le_strength_phraseAt receiver postfixStrength (by decide)

mutual

theorem groups_phraseAt : ∀ (e : Expr) (least : Nat), (e.phraseAt least).Groups
  | .null, least | .boolean _, least | .number _, least | .text _, least | .variable _, least => by
    rw [phraseAt, groups_enclose, Phrase.Groups]
    trivial
  | .list items, least => by
    rw [phraseAt, groups_enclose, Phrase.Groups]
    exact groups_phrases items
  | .assign name value, least => by
    rw [phraseAt, groups_enclose, Phrase.Groups]
    exact groups_phraseAt value _
  | .unary op operand, least => by
    obtain ⟨hlow, hhigh⟩ := operandStrength_between op operand
    rw [phraseAt, groups_enclose, Phrase.Groups]
    exact ⟨Nat.le_trans hlow (le_strength_phraseAt operand _ hhigh), groups_phraseAt operand _⟩
  | .binary op left right, least => by
    have hleft : op.leftStrength ≤ atomStrength := by cases op <;> decide
    have hright : op.rightStrength ≤ atomStrength := by cases op <;> decide
    rw [phraseAt, groups_enclose, Phrase.Groups]
    exact ⟨le_strength_phraseAt left _ hleft, le_strength_phraseAt right _ hright,
      groups_phraseAt left _, groups_phraseAt right _⟩
  | .conditional condition thenExpr elseExpr, least => by
    rw [phraseAt, groups_enclose, Phrase.Groups]
    exact ⟨le_strength_phraseAt condition (conditionalStrength + 1) (by decide),
      groups_phraseAt condition _, groups_phraseAt thenExpr _, groups_phraseAt elseExpr _⟩
  | .call function args, least => by
    rw [phraseAt, groups_enclose, Phrase.Groups]
    exact groups_phrases args
  | .method receiver name args, least => by
    rw [phraseAt, groups_enclose, Phrase.Groups]
    exact ⟨postfixStrength_le_receiver receiver, groups_phraseAt receiver _, groups_phrases args⟩
  | .member object property, least => by
    rw [phraseAt, groups_enclose, Phrase.Groups]
    exact ⟨postfixStrength_le_receiver object, groups_phraseAt object _⟩

theorem groups_phrases : ∀ es : List Expr, Phrase.GroupsAll (phrases es)
  | [] => trivial
  | e :: rest => ⟨groups_phraseAt e _, groups_phrases rest⟩

end

/-! ### Operators that clash -/

theorem clashes_left (op inner : BinaryOp) :
    (op.clashes inner && op.leftStrength ≤ inner.strength) = op.baresLeft inner := by
  cases op <;> cases inner <;> rfl

theorem clashes_right (op inner : BinaryOp) :
    (op.clashes inner && op.rightStrength ≤ inner.strength) = op.baresRight inner := by
  cases op <;> cases inner <;> rfl

theorem any_clashes_left (op : BinaryOp) (left : Expr) :
    (left.phraseAt op.leftStrength).operator?.any op.clashes = left.operator?.any op.baresLeft := by
  rw [operator?_phraseAt]
  cases left.operator? with
  | none => rfl
  | some inner =>
    rw [Option.any_some, ← clashes_left]
    by_cases h : op.leftStrength ≤ inner.strength <;> simp [Option.filter, h]

theorem any_clashes_right (op : BinaryOp) (right : Expr) :
    (right.phraseAt op.rightStrength).operator?.any op.clashes =
      right.operator?.any op.baresRight := by
  rw [operator?_phraseAt]
  cases right.operator? with
  | none => rfl
  | some inner =>
    rw [Option.any_some, ← clashes_right]
    by_cases h : op.rightStrength ≤ inner.strength <;> simp [Option.filter, h]

mutual

theorem mixes_phraseAt : ∀ (e : Expr) (least : Nat), (e.phraseAt least).Mixes ↔ e.Mixes
  | .null, least | .boolean _, least | .number _, least | .text _, least | .variable _, least => by
    rw [phraseAt, mixes_enclose, Phrase.Mixes, Mixes]
  | .list items, least => by
    rw [phraseAt, mixes_enclose, Phrase.Mixes, Mixes, mixes_phrases items]
  | .assign name value, least => by
    rw [phraseAt, mixes_enclose, Phrase.Mixes, Mixes, mixes_phraseAt value]
  | .unary op operand, least => by
    rw [phraseAt, mixes_enclose, Phrase.Mixes, Mixes, mixes_phraseAt operand]
  | .binary op left right, least => by
    rw [phraseAt, mixes_enclose, Phrase.Mixes, Mixes, any_clashes_left, any_clashes_right,
      mixes_phraseAt left, mixes_phraseAt right]
  | .conditional condition thenExpr elseExpr, least => by
    rw [phraseAt, mixes_enclose, Phrase.Mixes, Mixes, mixes_phraseAt condition,
      mixes_phraseAt thenExpr, mixes_phraseAt elseExpr]
  | .call function args, least => by
    rw [phraseAt, mixes_enclose, Phrase.Mixes, Mixes, mixes_phrases args]
  | .method receiver name args, least => by
    rw [phraseAt, mixes_enclose, Phrase.Mixes, Mixes, mixes_phraseAt receiver, mixes_phrases args]
  | .member object property, least => by
    rw [phraseAt, mixes_enclose, Phrase.Mixes, Mixes, mixes_phraseAt object]

theorem mixes_phrases : ∀ es : List Expr, Phrase.MixesAny (phrases es) ↔ MixesAny es
  | [] => Iff.rfl
  | e :: rest => by rw [phrases, Phrase.MixesAny, MixesAny, mixes_phraseAt e, mixes_phrases rest]

end

/-- The printed text is that of a phrase that groups as the expression does, and a bare operand
clashes in it just where the expression has one of four shapes. -/
theorem phrase_mixes_iff (e : Expr) :
    e.phrase.written = e.print ∧ e.phrase.expr = e ∧ e.phrase.Groups ∧
      (e.phrase.Mixes ↔ e.Mixes) :=
  ⟨written_phraseAt e _, expr_phraseAt e _, groups_phraseAt e _, mixes_phraseAt e _⟩

/-- An alternative before `??` has no parentheses. -/
theorem alternative_mixes :
    let e : Expr := .binary .coalesce (.binary .or (.variable "a") (.variable "b")) (.variable "c")
    e.print = "a || b ?? c" ∧ e.phrase.Mixes := by
  refine ⟨by decide, ?_⟩
  simp [phrase, mixes_phraseAt, Mixes, operator?, BinaryOp.baresLeft]

end Expr
end Blockwork.Target
