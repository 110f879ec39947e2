import Blockwork.Number.Literal

/-! The trees of the target language. -/

namespace Blockwork.Target

inductive UnaryOp where
  | negate
  | not
  | typeOf
deriving Repr, DecidableEq

inductive BinaryOp where
  | add
  | subtract
  | multiply
  | divide
  | modulo
  | power
  | equal
  | notEqual
  | less
  | lessOrEqual
  | greater
  | greaterOrEqual
  | and
  | or
  | coalesce
deriving Repr, DecidableEq

inductive Expr where
  | null
  | boolean (b : Bool)
  | number (n : Number.Literal)
  | text (s : String)
  | list (items : List Expr)
  | variable (name : String)
  | assign (name : String) (value : Expr)
  | unary (op : UnaryOp) (operand : Expr)
  | binary (op : BinaryOp) (left right : Expr)
  | conditional (condition thenExpr elseExpr : Expr)
  | call (function : String) (args : List Expr)
  | method (receiver : Expr) (name : String) (args : List Expr)
  | member (object : Expr) (property : String)

inductive Stmt where
  | expr (e : Expr)
  | branch (condition : Expr) (body otherwise : List Stmt)
  | whileLoop (condition : Expr) (body : List Stmt)
  | forLoop (start condition update : Expr) (body : List Stmt)
  | forEach (name : String) (sequence : Expr) (body : List Stmt)
  | breaking
  | continuing

structure Program where
  declared : List String := []
  body : List Stmt := []

namespace Expr

def num (x : Float) : Expr := .number { value := x }

def toText (e : Expr) : Expr := .call "String" [e]

def isNumber : Expr → Bool
  | .number _ => true
  | _ => false

end Expr
end Blockwork.Target
