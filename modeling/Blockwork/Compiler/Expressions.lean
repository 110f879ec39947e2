import Blockwork.Compiler.Basic

/-! What the kinds compile to that compute a value from their slots. -/

namespace Blockwork

open Target

def Comparison.operator : Comparison → BinaryOp
  | .equal => .equal
  | .notEqual => .notEqual
  | .less => .less
  | .lessOrEqual => .lessOrEqual
  | .greater => .greater
  | .greaterOrEqual => .greaterOrEqual

def Junction.operator : Junction → BinaryOp
  | .and => .and
  | .or => .or

def Operation.operator : Operation → BinaryOp
  | .add => .add
  | .subtract => .subtract
  | .multiply => .multiply
  | .divide => .divide
  | .power => .power

def MathFunction.code (f : MathFunction) (e : Expr) : Expr :=
  match f with
  | .root => .call "Math.sqrt" [e]
  | .absolute => .call "Math.abs" [e]
  | .negate => .unary .negate e
  | .naturalLog => .call "Math.log" [e]
  | .decimalLog => .call "Math.log10" [e]
  | .exponential => .call "Math.exp" [e]
  | .powerOfTen => .binary .power (.num 10) e

def Rounding.helper : Rounding → String
  | .nearest => "Math.round"
  | .up => "Math.ceil"
  | .down => "Math.floor"

def LetterCase.code (l : LetterCase) (e : Expr) : Expr :=
  match l with
  | .upper => .method e "toUpperCase" []
  | .lower => .method e "toLowerCase" []
  | .title => .call "textToTitleCase" [e]

def TrimSide.helper : TrimSide → String
  | .both => "trim"
  | .left => "trimStart"
  | .right => "trimEnd"

def remainderIs (e divisor : Expr) (x : Float) : Expr :=
  .binary .equal (.binary .modulo e divisor) (.num x)

def hasNoLength (e : Expr) : Expr := .binary .equal (.member e "length") (.num 0)

def joinCode : List Expr → Expr
  | [] => .text ""
  | e :: rest => rest.foldl (.binary .add) e

namespace Parts

def compileFilled (p : Parts SlotCode) : List String → Compilation (List Expr)
  | [] => return []
  | name :: rest => do
    let plug ← p.value name
    if plug.filled then
      let e ← plug.meaning.expression
      return e.toText :: (← compileFilled p rest)
    else compileFilled p rest

def compileProperty (p : Parts SlotCode) (property : Property) : Compilation Expr := do
  let e ← p.compile "NUMBER_TO_CHECK"
  match property with
  | .prime => throw (.unsupported .primeForm)
  | .even => return remainderIs e (.num 2) 0
  | .odd => return remainderIs e (.num 2) 1
  | .whole => return remainderIs e (.num 1) 0
  | .positive => return .binary .greater e (.num 0)
  | .negative => return .binary .less e (.num 0)
  | .divisible => return remainderIs e (← p.compile "DIVISOR") 0

def compileConstrain (p : Parts SlotCode) : Compilation Expr := do
  let value ← p.compile "VALUE"
  let low ← p.compile "LOW"
  let high ← p.compile "HIGH"
  return .call "Math.min" [.call "Math.max" [value, low], high]

end Parts
end Blockwork
