import Blockwork.Compiler.Expressions

/-! What the kinds compile to that change variables or decide what runs next. Every variable that
is assigned is declared in the root. -/

namespace Blockwork

open Target

def Compilation.assign (name : String) (value : Expr) : Compilation Expr := do
  Compilation.declare name value
  return .assign name value

namespace Parts

/-- A variable that is no number counts as zero. -/
def compileChange (p : Parts SlotCode) : Compilation Expr := do
  let name ← p.variable
  let delta ← p.compile "DELTA"
  let isNumber : Expr := .binary .equal (.unary .typeOf (.variable name)) (.text "number")
  Compilation.assign name
    (.binary .add (.conditional isNumber (.variable name) (.num 0)) delta)

/-- A variable without a value counts as the empty text. -/
def compileAppend (p : Parts SlotCode) : Compilation Expr := do
  let name ← p.variable
  let suffix ← p.compileText "TEXT"
  Compilation.assign name
    (.binary .add (Expr.binary .coalesce (.variable name) (.text "")).toText suffix)

def compileSet (p : Parts SlotCode) : Compilation Expr := do
  let name ← p.variable
  let value ← p.compile "VALUE"
  Compilation.assign name value

/-! ### Branches -/

def compileArms (p : Parts SlotCode) : List Nat → Compilation (List (Expr × List Stmt))
  | [] => return []
  | i :: rest => do
    let condition ← p.compile (numbered "IF" i)
    let body ← Traversal.inBranch (p.compileBody (numbered "DO" i))
    return (condition, body) :: (← compileArms p rest)

def compileBranch (p : Parts SlotCode) (alwaysElse : Bool) : Compilation (List Stmt) := do
  let (count, hasElse) ← p.arms alwaysElse
  let arms ← p.compileArms (List.range count)
  let last ← if hasElse then Traversal.inBranch (p.compileBody "ELSE") else pure []
  return arms.foldr (fun (condition, body) otherwise => [.branch condition body otherwise]) last

/-! ### Loops -/

def compileLoopBody (p : Parts SlotCode) : Compilation (List Stmt) :=
  Traversal.inLoop (p.compileBody "DO")

def counterName (depth : Nat) : String := "count" ++ Nat.repr depth

def countCode (p : Parts SlotCode) : CountSource → Compilation Expr
  | .input => p.compile "TIMES"
  | .field => do return .number (← readNumber (← p.field "TIMES"))

/-- A bound that is no number is computed once, before the loop. -/
def compileRepeat (p : Parts SlotCode) (source : CountSource) : Compilation (List Stmt) := do
  let counter := counterName (← MonadState.get).depth
  let times ← p.countCode source
  let bound := counter ++ "_end"
  let (before, limit) ←
    if times.isNumber then pure ([], times)
    else do
      let e ← Compilation.assign bound times
      pure ([Stmt.expr e], Expr.variable bound)
  Compilation.declare counter (.num 0)
  let body ← p.compileLoopBody
  return before ++ [.forLoop (.assign counter (.num 0))
    (.binary .less (.variable counter) limit)
    (.assign counter (.binary .add (.variable counter) (.num 1))) body]

def compileWhileUntil (p : Parts SlotCode) (mode : LoopMode) : Compilation (List Stmt) := do
  let condition ← p.compile "BOOL"
  let condition := match mode with
    | .repeatWhile => condition
    | .repeatUntil => .unary .not condition
  return [.whileLoop condition (← p.compileLoopBody)]

/-- The start, the end and the step are computed once, before the loop. -/
def compileRange (p : Parts SlotCode) : Compilation (List Stmt) := do
  let name ← p.variable
  let fromCode ← p.compile "FROM"
  let toCode ← p.compile "TO"
  let byCode ← p.compile "BY"
  let first := name ++ "_start"
  let last := name ++ "_end"
  let step := name ++ "_inc"
  Compilation.declare first fromCode
  Compilation.declare last toCode
  Compilation.declare step byCode
  Compilation.declare name (.variable first)
  let body ← p.compileLoopBody
  return [
    .expr (.assign first fromCode),
    .expr (.assign last toCode),
    .expr (.assign step (.call "Math.abs" [byCode])),
    .branch (.binary .greater (.variable first) (.variable last))
      [.expr (.assign step (.unary .negate (.variable step)))] [],
    .forLoop (.assign name (.variable first))
      (.conditional (.binary .greaterOrEqual (.variable step) (.num 0))
        (.binary .lessOrEqual (.variable name) (.variable last))
        (.binary .greaterOrEqual (.variable name) (.variable last)))
      (.assign name (.binary .add (.variable name) (.variable step))) body]

def compileForEach (p : Parts SlotCode) : Compilation (List Stmt) := do
  let name ← p.variable
  let sequence ← p.compile "LIST"
  Compilation.declare name .null
  return [.forEach name sequence (← p.compileLoopBody)]

def compileFlow (p : Parts SlotCode) : Compilation (List Stmt) := do
  match ← p.option "FLOW" flowOptions with
  | .breaking => return [.breaking]
  | .continuing => return [.continuing]
  | .none => return []

end Parts

def Kind.compile (p : Parts SlotCode) : Kind → Compilation Code
  | .branch alwaysElse => .statements <$> p.compileBranch alwaysElse
  | .repeatTimes source => .statements <$> p.compileRepeat source
  | .whileUntil => do return .statements (← p.compileWhileUntil (← p.option "MODE" LoopMode.options))
  | .countRange => .statements <$> p.compileRange
  | .forEach => .statements <$> p.compileForEach
  | .flow => .statements <$> p.compileFlow
  | .boolean => do return .expression (.boolean (← p.boolean))
  | .null => return .expression .null
  | .not => do return .expression (.unary .not (← p.compile "BOOL"))
  | .compare => do
    let comparison ← p.option "OP" Comparison.options
    let left ← p.compile "A"
    let right ← p.compile "B"
    return .expression (.binary comparison.operator left right)
  | .junction => do
    let junction ← p.option "OP" Junction.options
    let left ← p.compile "A"
    let right ← p.compile "B"
    return .expression (.binary junction.operator left right)
  | .ternary => do
    let condition ← p.compile "IF"
    let thenExpr ← p.compile "THEN"
    let elseExpr ← p.compile "ELSE"
    return .expression (.conditional condition thenExpr elseExpr)
  | .number => do return .expression (.number (← readNumber (← p.field "NUM")))
  | .arithmetic => do
    let operation ← p.option "OP" Operation.options
    let left ← p.compile "A"
    let right ← p.compile "B"
    return .expression (.binary operation.operator left right)
  | .function => do
    let function ← p.option "OP" MathFunction.options
    return .expression (function.code (← p.compile "NUM"))
  | .round => do
    let rounding ← p.option "OP" Rounding.options
    return .expression (.call rounding.helper [← p.compile "NUM"])
  | .constant => do return .expression (.num (← p.option "CONSTANT" constantOptions))
  | .property => do
    return .expression (← p.compileProperty (← p.option "PROPERTY" Property.options))
  | .modulo => do
    let left ← p.compile "DIVIDEND"
    let right ← p.compile "DIVISOR"
    return .expression (.binary .modulo left right)
  | .constrain => .expression <$> p.compileConstrain
  | .change => .expression <$> p.compileChange
  | .text => do return .expression (.text (← p.field "TEXT"))
  | .join => do
    let count ← p.count ["items"] 2
    let texts ← p.compileFilled ((List.range count).map (numbered "ADD"))
    return .expression (joinCode texts)
  | .append => .expression <$> p.compileAppend
  | .textLength => do return .expression (.member (← p.compileText "VALUE") "length")
  | .textIsEmpty => do return .expression (hasNoLength (← p.compileText "VALUE"))
  | .changeCase => do
    let letterCase ← p.option "CASE" LetterCase.options
    return .expression (letterCase.code (← p.compileText "TEXT"))
  | .trim => do
    let side ← p.option "MODE" TrimSide.options
    return .expression (.method (← p.compileText "TEXT") side.helper [])
  | .get => do return .expression (.variable (← p.variable))
  | .set => .expression <$> p.compileSet
  | .emptyList => return .expression (.list [])
  | .createList => do
    let count ← p.count ["items"] 3
    return .expression (.list (← (List.range count).mapM fun i => p.compile (numbered "ADD" i)))
  | .repeatItem => do
    let item ← p.compile "ITEM"
    let count ← p.compile "NUM"
    return .expression (.call "listsRepeat" [item, count])
  | .listLength => do return .expression (.member (← p.compile "VALUE") "length")
  | .listIsEmpty => do return .expression (hasNoLength (← p.compile "VALUE"))

end Blockwork
