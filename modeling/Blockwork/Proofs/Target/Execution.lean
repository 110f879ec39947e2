import Mathlib
import Blockwork.Interpreter.Expressions
import Blockwork.Target.Print

/-! What compiled programs do. An expression gives a value and a store; what is not defined for its
operands has no result, and neither has a loop that is not over after the allowed number of rounds. -/

namespace Blockwork.Target

/-- A variable without a value is undefined. -/
inductive Value where
  | undefined
  | null
  | boolean (b : Bool)
  | number (x : Float)
  | text (s : String)
  | list (items : List Value)

abbrev Store := Entries Value

namespace Value

def truthy : Value → Bool
  | .undefined | .null => false
  | .boolean b => b
  | .number x => x != 0.0 && !x.isNaN
  | .text s => !s.isEmpty
  | .list _ => true

def toNumber : Value → Float
  | .undefined | .list _ => 0.0 / 0.0
  | .null => 0.0
  | .boolean b => if b then 1.0 else 0.0
  | .number x => x
  | .text s =>
    if (Text.trim s).isEmpty then 0.0
    else match Number.read? (Text.trim s) with
      | some n => n.value
      | none => 0.0 / 0.0

mutual

def display : Value → String
  | .undefined => "undefined"
  | .null => "null"
  | .boolean b => if b then "true" else "false"
  | .number x => Number.text x
  | .text s => s
  | .list items => displayItems items

def displayItems : List Value → String
  | [] => ""
  | [.undefined] | [.null] => ""
  | [item] => item.display
  | .undefined :: rest | .null :: rest => "," ++ displayItems rest
  | item :: rest => item.display ++ "," ++ displayItems rest

end

def typeName : Value → String
  | .undefined => "undefined"
  | .boolean _ => "boolean"
  | .number _ => "number"
  | .text _ => "string"
  | .null | .list _ => "object"

mutual

def equals : Value → Value → Bool
  | .undefined, .undefined | .null, .null => true
  | .boolean a, .boolean b => a == b
  | .number x, .number y => x == y
  | .text s, .text t => s == t
  | .list xs, .list ys => equalItems xs ys
  | _, _ => false

def equalItems : List Value → List Value → Bool
  | [], [] => true
  | x :: xs, y :: ys => x.equals y && equalItems xs ys
  | _, _ => false

end

/-- Two texts are ordered as texts, all other values as numbers. -/
def order : Value → Value → Order
  | .text s, .text t => .ofTexts s t
  | v, w => .ofFloats v.toNumber w.toNumber

/-- A sum with a text or a list is a text. -/
def add : Value → Value → Value
  | .number x, .number y => .number (x + y)
  | .text s, w => .text (s ++ w.display)
  | v, .text t => .text (v.display ++ t)
  | .list items, w => .text ((Value.list items).display ++ w.display)
  | v, .list items => .text (v.display ++ (Value.list items).display)
  | v, w => .number (v.toNumber + w.toNumber)

end Value

/-! ### Operators -/

def UnaryOp.apply : UnaryOp → Value → Value
  | .negate, v => .number (-v.toNumber)
  | .not, v => .boolean (!v.truthy)
  | .typeOf, v => .text v.typeName

/-- Whether the first operand is the result, so that the second one is not looked at. -/
def BinaryOp.decides : BinaryOp → Value → Bool
  | .and, v => !v.truthy
  | .or, v => v.truthy
  | .coalesce, .undefined | .coalesce, .null => false
  | .coalesce, _ => true
  | _, _ => false

def BinaryOp.apply : BinaryOp → Value → Value → Value
  | .add, v, w => v.add w
  | .subtract, v, w => .number (v.toNumber - w.toNumber)
  | .multiply, v, w => .number (v.toNumber * w.toNumber)
  | .divide, v, w => .number (v.toNumber / w.toNumber)
  | .modulo, v, w => .number (Number.remainder v.toNumber w.toNumber)
  | .power, v, w => .number (v.toNumber.pow w.toNumber)
  | .equal, v, w => .boolean (v.equals w)
  | .notEqual, v, w => .boolean (!v.equals w)
  | .less, v, w => .boolean (v.order w = .less)
  | .lessOrEqual, v, w => .boolean (v.order w = .less || v.order w = .equal)
  | .greater, v, w => .boolean (v.order w = .greater)
  | .greaterOrEqual, v, w => .boolean (v.order w = .greater || v.order w = .equal)
  | .and, _, w | .or, _, w | .coalesce, _, w => w

/-! ### Helpers -/

/-- The number of copies that a number asks for: none below one, and no list is infinite. -/
def copies? (x : Float) : Option Nat :=
  match Number.Binary.ofFloat? x with
  | some b => some (if b.negative then 0 else b.whole)
  | none => if x > 0.0 then none else some 0

def argument (args : List Value) (i : Nat) : Float := (args[i]?.map Value.toNumber).getD (0.0 / 0.0)

def argumentText (args : List Value) : String := (args.head?.map Value.display).getD ""

def numberHelper? (function : String) (x y : Float) : Option Float :=
  match function with
  | "Math.sqrt" => some x.sqrt
  | "Math.abs" => some x.abs
  | "Math.log" => some x.log
  | "Math.log10" => some x.log10
  | "Math.exp" => some x.exp
  | "Math.round" => some (Number.floor (x + 0.5))
  | "Math.ceil" => some (Number.ceil x)
  | "Math.floor" => some (Number.floor x)
  | "Math.min" => some (Number.minimum x y)
  | "Math.max" => some (Number.maximum x y)
  | _ => none

def callHelper? (function : String) (args : List Value) : Option Value :=
  match function with
  | "String" => some (.text (argumentText args))
  | "textToTitleCase" => some (.text (Text.title (argumentText args)))
  | "listsRepeat" =>
    (copies? (argument args 1)).map fun n => .list (List.replicate n (args.head?.getD .undefined))
  | function => (numberHelper? function (argument args 0) (argument args 1)).map .number

/-- Only texts have methods, and none takes arguments. -/
def callMethod? (name : String) (args : List Expr) : Value → Option Value
  | .text s =>
    if args.isEmpty then
      match name with
      | "toUpperCase" => some (.text (Text.upper s))
      | "toLowerCase" => some (.text (Text.lower s))
      | "trim" => some (.text (Text.trim s))
      | "trimStart" => some (.text (Text.trimStart s))
      | "trimEnd" => some (.text (Text.trimEnd s))
      | _ => none
    else none
  | _ => none

def member? (property : String) (v : Value) : Option Value :=
  if property = "length" then
    match v with
    | .text s => some (.number (Float.ofNat (Text.unitCount s.toList)))
    | .list items => some (.number (Float.ofNat items.length))
    | _ => none
  else none

/-! ### Expressions -/

mutual

def Expr.eval : Expr → Store → Option (Value × Store)
  | .null, σ => some (.null, σ)
  | .boolean b, σ => some (.boolean b, σ)
  | .number n, σ => some (.number n.value, σ)
  | .text s, σ => some (.text s, σ)
  | .list items, σ => do
    let (vs, σ) ← evalAll items σ
    return (.list vs, σ)
  | .variable name, σ => some ((σ.get? name).getD .undefined, σ)
  | .assign name value, σ => do
    let (v, σ) ← value.eval σ
    return (v, σ.put name v)
  | .unary op operand, σ => do
    let (v, σ) ← operand.eval σ
    return (op.apply v, σ)
  | .binary op left right, σ => do
    let (v, σ) ← left.eval σ
    if op.decides v then return (v, σ)
    let (w, σ) ← right.eval σ
    return (op.apply v w, σ)
  | .conditional condition thenExpr elseExpr, σ => do
    let (v, σ) ← condition.eval σ
    if v.truthy then thenExpr.eval σ else elseExpr.eval σ
  | .call function args, σ => do
    let (vs, σ) ← evalAll args σ
    return (← callHelper? function vs, σ)
  | .method receiver name args, σ => do
    let (v, σ) ← receiver.eval σ
    return (← callMethod? name args v, σ)
  | .member object property, σ => do
    let (v, σ) ← object.eval σ
    return (← member? property v, σ)

def evalAll : List Expr → Store → Option (List Value × Store)
  | [], σ => some ([], σ)
  | e :: rest, σ => do
    let (v, σ) ← e.eval σ
    let (vs, σ) ← evalAll rest σ
    return (v :: vs, σ)

end

/-! ### Statements -/

/-- What a statement does: how it ends, and the store that it leaves. -/
abbrev Effect := Store → Option (Escape × Store)

section Loops

variable (condition : Store → Option (Value × Store)) (body : Effect)
  (update : Store → Option Store)

def turn (σ : Store) : Option (Bool × Store) := do
  let (v, σ) ← condition σ
  if v.truthy then
    let (e, σ) ← body σ
    if e = .breaking then return (false, σ)
    return (true, ← update σ)
  else return (false, σ)

def turns : Nat → Store → Option Store
  | 0, _ => none
  | limit + 1, σ => do
    let (more, σ) ← turn condition body update σ
    if more then turns limit σ else return σ

def turnItems (name : String) : List Value → Store → Option Store
  | [], σ => some σ
  | item :: rest, σ => do
    let (e, σ) ← body (σ.put name item)
    if e = .breaking then return σ
    turnItems name rest σ

end Loops

mutual

def Stmt.exec (limit : Nat) : Stmt → Effect
  | .expr e, σ => do
    let (_, σ) ← e.eval σ
    return (.none, σ)
  | .branch condition body otherwise, σ => do
    let (v, σ) ← condition.eval σ
    if v.truthy then execBody limit body σ else execBody limit otherwise σ
  | .whileLoop condition body, σ => do
    return (.none, ← turns condition.eval (fun σ => execBody limit body σ) some limit σ)
  | .forLoop start condition update body, σ => do
    let (_, σ) ← start.eval σ
    return (.none, ← turns condition.eval (fun σ => execBody limit body σ)
      (fun σ => (update.eval σ).map Prod.snd) limit σ)
  | .forEach name sequence body, σ => do
    let (v, σ) ← sequence.eval σ
    match v with
    | .list items => return (.none, ← turnItems (fun σ => execBody limit body σ) name items σ)
    | _ => none
  | .breaking, σ => some (.breaking, σ)
  | .continuing, σ => some (.continuing, σ)

/-- Statements run up to the first one that does not end normally. -/
def execBody (limit : Nat) : List Stmt → Effect
  | [], σ => some (.none, σ)
  | s :: rest, σ => do
    let (e, σ) ← s.exec limit σ
    if e = .none then execBody limit rest σ else return (e, σ)

end

variable {limit : Nat} {σ σ₁ σ₂ : Store} {e : Escape}

theorem eval_num (x : Float) (σ : Store) : (Expr.num x).eval σ = some (.number x, σ) := rfl

theorem eval_variable {name : String} {w : Value} (h : σ.get? name = some w) :
    (Expr.variable name).eval σ = some (w, σ) := by
  show some ((σ.get? name).getD .undefined, σ) = _
  rw [h]
  rfl

theorem eval_unary (op : UnaryOp) {operand : Expr} {v : Value}
    (h : operand.eval σ = some (v, σ₁)) : (Expr.unary op operand).eval σ = some (op.apply v, σ₁) := by
  show (operand.eval σ >>= fun r => some (op.apply r.1, r.2)) = _
  rw [h]
  rfl

theorem eval_binary {op : BinaryOp} {left right : Expr} {v w : Value}
    (hl : left.eval σ = some (v, σ₁)) (hop : op.decides v = false)
    (hr : right.eval σ₁ = some (w, σ₂)) :
    (Expr.binary op left right).eval σ = some (op.apply v w, σ₂) := by
  show (left.eval σ >>= fun r => if op.decides r.1 then some (r.1, r.2)
    else right.eval r.2 >>= fun r' => some (op.apply r.1 r'.1, r'.2)) = _
  rw [hl]
  show (if op.decides v then _ else _) = _
  rw [hop, hr]
  rfl

/-- The first operand decides. -/
theorem eval_decided {op : BinaryOp} {left right : Expr} {v : Value}
    (hl : left.eval σ = some (v, σ₁)) (hop : op.decides v = true) :
    (Expr.binary op left right).eval σ = some (v, σ₁) := by
  show (left.eval σ >>= fun r => if op.decides r.1 then some (r.1, r.2)
    else right.eval r.2 >>= fun r' => some (op.apply r.1 r'.1, r'.2)) = _
  rw [hl]
  show (if op.decides v then _ else _) = _
  rw [hop]
  rfl

theorem eval_conditional {condition thenExpr elseExpr : Expr} {v : Value}
    (h : condition.eval σ = some (v, σ₁)) :
    (Expr.conditional condition thenExpr elseExpr).eval σ =
      if v.truthy then thenExpr.eval σ₁ else elseExpr.eval σ₁ := by
  show (condition.eval σ >>= fun r =>
    if r.1.truthy then thenExpr.eval r.2 else elseExpr.eval r.2) = _
  rw [h]
  rfl

theorem eval_assign {name : String} {value : Expr} {w : Value} (h : value.eval σ = some (w, σ₁)) :
    (Expr.assign name value).eval σ = some (w, σ₁.put name w) := by
  show (value.eval σ >>= fun r => some (r.1, r.2.put name r.1)) = _
  rw [h]
  rfl

theorem exec_expr {expr : Expr} {w : Value} (h : expr.eval σ = some (w, σ₁)) :
    (Stmt.expr expr).exec limit σ = some (.none, σ₁) := by
  show (expr.eval σ >>= fun r => some (Escape.none, r.2)) = _
  rw [h]
  rfl

section

variable {condition : Expr} {body otherwise : List Stmt} {w : Value} {result : Escape × Store}

theorem exec_branch_true (h : condition.eval σ = some (w, σ₁)) (hw : w.truthy = true)
    (hbody : execBody limit body σ₁ = some result) :
    (Stmt.branch condition body otherwise).exec limit σ = some result := by
  show (condition.eval σ >>= fun r =>
    if r.1.truthy then execBody limit body r.2 else execBody limit otherwise r.2) = _
  rw [h]
  show (if w.truthy then _ else _) = _
  rw [if_pos hw]
  exact hbody

theorem exec_branch_false (h : condition.eval σ = some (w, σ₁)) (hw : w.truthy = false)
    (hotherwise : execBody limit otherwise σ₁ = some result) :
    (Stmt.branch condition body otherwise).exec limit σ = some result := by
  show (condition.eval σ >>= fun r =>
    if r.1.truthy then execBody limit body r.2 else execBody limit otherwise r.2) = _
  rw [h]
  show (if w.truthy then _ else _) = _
  rw [hw]
  exact hotherwise

end

theorem exec_whileLoop {condition : Expr} {body : List Stmt}
    (h : turns condition.eval (fun σ => execBody limit body σ) some limit σ = some σ₁) :
    (Stmt.whileLoop condition body).exec limit σ = some (.none, σ₁) := by
  show (turns condition.eval (fun σ => execBody limit body σ) some limit σ >>=
    fun σ => some (Escape.none, σ)) = _
  rw [h]
  rfl

theorem exec_forLoop {start condition update : Expr} {body : List Stmt} {w : Value}
    (hstart : start.eval σ = some (w, σ₁))
    (h : turns condition.eval (fun σ => execBody limit body σ)
      (fun σ => (update.eval σ).map Prod.snd) limit σ₁ = some σ₂) :
    (Stmt.forLoop start condition update body).exec limit σ = some (.none, σ₂) := by
  show (start.eval σ >>= fun r => turns condition.eval (fun σ => execBody limit body σ)
    (fun σ => (update.eval σ).map Prod.snd) limit r.2 >>= fun σ => some (Escape.none, σ)) = _
  rw [hstart]
  show (turns _ _ _ _ _ >>= fun σ => some (Escape.none, σ)) = _
  rw [h]
  rfl

theorem exec_forEach {name : String} {sequence : Expr} {body : List Stmt} {items : List Value}
    (hsequence : sequence.eval σ = some (.list items, σ₁))
    (h : turnItems (fun σ => execBody limit body σ) name items σ₁ = some σ₂) :
    (Stmt.forEach name sequence body).exec limit σ = some (.none, σ₂) := by
  show (sequence.eval σ >>= fun r => match r.1 with
    | .list items => turnItems (fun σ => execBody limit body σ) name items r.2 >>=
      fun σ => some (Escape.none, σ)
    | _ => none) = _
  rw [hsequence]
  show (turnItems _ _ _ _ >>= fun σ => some (Escape.none, σ)) = _
  rw [h]
  rfl

/-! ### Turns of a loop -/

section

variable {condition : Store → Option (Value × Store)} {body : Effect}
  {update : Store → Option Store} {w : Value} {σ₃ : Store}

theorem turn_more (h : condition σ = some (w, σ₁)) (hw : w.truthy = true)
    (hbody : body σ₁ = some (e, σ₂)) (he : e ≠ .breaking) (hupdate : update σ₂ = some σ₃) :
    turn condition body update σ = some (true, σ₃) := by
  rw [turn, h]
  show (if w.truthy then _ else _) = _
  rw [if_pos hw, hbody]
  show (if e = .breaking then _ else _) = _
  rw [if_neg he, hupdate]
  rfl

theorem turn_broken (h : condition σ = some (w, σ₁)) (hw : w.truthy = true)
    (hbody : body σ₁ = some (.breaking, σ₂)) :
    turn condition body update σ = some (false, σ₂) := by
  rw [turn, h]
  show (if w.truthy then _ else _) = _
  rw [if_pos hw, hbody]
  rfl

theorem turn_over (h : condition σ = some (w, σ₁)) (hw : w.truthy = false) :
    turn condition body update σ = some (false, σ₁) := by
  rw [turn, h]
  show (if w.truthy then _ else _) = _
  rw [hw]
  rfl

end

theorem execBody_cons {s : Stmt} {rest : List Stmt} (h : s.exec limit σ = some (.none, σ₁)) :
    execBody limit (s :: rest) σ = execBody limit rest σ₁ := by
  show (s.exec limit σ >>= fun r => if r.1 = .none then execBody limit rest r.2 else some r) = _
  rw [h]
  rfl

theorem execBody_cons_of_ne {s : Stmt} {rest : List Stmt} (h : s.exec limit σ = some (e, σ₁))
    (he : e ≠ .none) : execBody limit (s :: rest) σ = some (e, σ₁) := by
  show (s.exec limit σ >>= fun r => if r.1 = .none then execBody limit rest r.2 else some r) = _
  rw [h]
  exact if_neg he

theorem execBody_singleton {s : Stmt} (h : s.exec limit σ = some (e, σ₁)) :
    execBody limit [s] σ = some (e, σ₁) := by
  by_cases he : e = .none
  · subst he
    exact execBody_cons h
  · exact execBody_cons_of_ne h he

theorem execBody_append (limit : Nat) (body rest : List Stmt) (σ : Store) :
    execBody limit (body ++ rest) σ = (execBody limit body σ).bind fun (e, σ) =>
      if e = .none then execBody limit rest σ else some (e, σ) := by
  induction body generalizing σ with
  | nil => rfl
  | cons s body ih =>
    rw [List.cons_append]
    cases hs : s.exec limit σ with
    | none =>
      show (s.exec limit σ >>= fun r => if r.1 = .none then execBody limit (body ++ rest) r.2
        else some r) = Option.bind (s.exec limit σ >>= fun r =>
          if r.1 = .none then execBody limit body r.2 else some r) _
      rw [hs]
      rfl
    | some result =>
      obtain ⟨e, σ₁⟩ := result
      by_cases he : e = .none
      · subst he
        rw [execBody_cons hs, execBody_cons hs, ih]
      · rw [execBody_cons_of_ne hs he, execBody_cons_of_ne hs he]
        exact (if_neg he).symm

end Blockwork.Target
