import Blockwork.Number.Layout
import Blockwork.Target.Expr
import Blockwork.Target.Identifier
import Blockwork.Text.Quoted

/-! The written form of target trees. An expression is put in parentheses where its binding
strength is below the one its place asks for. -/

namespace Blockwork.Target

/-- Binding strengths, loosest first. -/
def assignStrength : Nat := 1

def conditionalStrength : Nat := 2

def unaryStrength : Nat := 10

def postfixStrength : Nat := 11

def atomStrength : Nat := 12

namespace BinaryOp

def strength : BinaryOp → Nat
  | .coalesce | .or => 3
  | .and => 4
  | .equal | .notEqual => 5
  | .less | .lessOrEqual | .greater | .greaterOrEqual => 6
  | .add | .subtract => 7
  | .multiply | .divide | .modulo => 8
  | .power => 9

def symbol : BinaryOp → String
  | .add => "+"
  | .subtract => "-"
  | .multiply => "*"
  | .divide => "/"
  | .modulo => "%"
  | .power => "**"
  | .equal => "==="
  | .notEqual => "!=="
  | .less => "<"
  | .lessOrEqual => "<="
  | .greater => ">"
  | .greaterOrEqual => ">="
  | .and => "&&"
  | .or => "||"
  | .coalesce => "??"

/-- Powers group to the right and take no bare unary operator on their left; all other operators
group to the left. -/
def leftStrength (op : BinaryOp) : Nat :=
  if op = .power then postfixStrength else op.strength

def rightStrength (op : BinaryOp) : Nat :=
  if op = .power then op.strength else op.strength + 1

end BinaryOp

def UnaryOp.symbol : UnaryOp → String
  | .negate => "-"
  | .not => "!"
  | .typeOf => "typeof "

namespace Expr

def strength : Expr → Nat
  | .assign .. => assignStrength
  | .conditional .. => conditionalStrength
  | .binary op .. => op.strength
  | .unary .. => unaryStrength
  | .number n => if n.isNegative then unaryStrength else atomStrength
  | .call .. | .method .. | .member .. => postfixStrength
  | _ => atomStrength

def startsWithMinus : Expr → Bool
  | .number n => n.isNegative
  | .unary op _ => op = .negate
  | _ => false

/-- Two minus signs in a row would be one other sign. -/
def operandStrength (op : UnaryOp) (operand : Expr) : Nat :=
  if op = .negate && operand.startsWithMinus then unaryStrength + 1 else unaryStrength

/-- A point behind a numeral would belong to it. -/
def receiverStrength (receiver : Expr) : Nat :=
  if receiver.isNumber then atomStrength + 1 else postfixStrength

def wrap (e : Expr) (least : Nat) (written : String) : String :=
  if e.strength < least then "(" ++ written ++ ")" else written

mutual

def printAt (least : Nat) : Expr → String
  | .null => wrap .null least "null"
  | .boolean b => wrap (.boolean b) least (if b then "true" else "false")
  | .number n => wrap (.number n) least (Number.text n.value)
  | .text s => wrap (.text s) least (Text.json.quote s)
  | .list items => wrap (.list items) least ("[" ++ printArgs items ++ "]")
  | .variable name => wrap (.variable name) least (identifier name)
  | .assign name value =>
    wrap (.assign name value) least (identifier name ++ " = " ++ printAt assignStrength value)
  | .unary op operand =>
    wrap (.unary op operand) least (op.symbol ++ printAt (operandStrength op operand) operand)
  | .binary op left right =>
    wrap (.binary op left right) least
      (printAt op.leftStrength left ++ " " ++ op.symbol ++ " " ++ printAt op.rightStrength right)
  | .conditional condition thenExpr elseExpr =>
    wrap (.conditional condition thenExpr elseExpr) least
      (printAt (conditionalStrength + 1) condition ++ " ? " ++ printAt assignStrength thenExpr ++
        " : " ++ printAt assignStrength elseExpr)
  | .call function args => wrap (.call function args) least (function ++ "(" ++ printArgs args ++ ")")
  | .method receiver name args =>
    wrap (.method receiver name args) least
      (printAt (receiverStrength receiver) receiver ++ "." ++ name ++ "(" ++ printArgs args ++ ")")
  | .member object property =>
    wrap (.member object property) least
      (printAt (receiverStrength object) object ++ "." ++ property)

def printArgs : List Expr → String
  | [] => ""
  | [arg] => printAt assignStrength arg
  | arg :: rest => printAt assignStrength arg ++ ", " ++ printArgs rest

end

def print (e : Expr) : String := printAt assignStrength e

end Expr

def line (depth : Nat) (text : String) : String :=
  String.ofList (List.replicate (2 * depth) ' ') ++ text ++ "\n"

mutual

def Stmt.printAt (depth : Nat) : Stmt → String
  | .expr e => line depth (e.print ++ ";")
  | .branch condition body otherwise =>
    line depth ("if (" ++ condition.print ++ ") \x7b") ++ printBody (depth + 1) body ++
      printElse depth otherwise
  | .whileLoop condition body =>
    line depth ("while (" ++ condition.print ++ ") \x7b") ++ printBody (depth + 1) body ++
      line depth "\x7d"
  | .forLoop start condition update body =>
    line depth ("for (" ++ start.print ++ "; " ++ condition.print ++ "; " ++ update.print ++
      ") \x7b") ++ printBody (depth + 1) body ++ line depth "\x7d"
  | .forEach name sequence body =>
    line depth ("for (" ++ identifier name ++ " of " ++ sequence.print ++ ") \x7b") ++
      printBody (depth + 1) body ++ line depth "\x7d"
  | .breaking => line depth "break;"
  | .continuing => line depth "continue;"

def printBody (depth : Nat) : List Stmt → String
  | [] => ""
  | s :: rest => s.printAt depth ++ printBody depth rest

/-- The end of a branch. A lone branch inside the else goes on in the same line. -/
def printElse (depth : Nat) : List Stmt → String
  | [] => line depth "\x7d"
  | [.branch condition body otherwise] =>
    line depth ("\x7d else if (" ++ condition.print ++ ") \x7b") ++ printBody (depth + 1) body ++
      printElse depth otherwise
  | s :: rest =>
    line depth "\x7d else \x7b" ++ s.printAt (depth + 1) ++ printBody (depth + 1) rest ++
      line depth "\x7d"

end

def printStatements (body : List Stmt) : String := printBody 0 body

def Program.print (p : Program) : String :=
  (if p.declared.isEmpty then ""
    else line 0 ("var " ++ ", ".intercalate (p.declared.map identifier) ++ ";") ++
      if p.body.isEmpty then "" else "\n") ++
    printStatements p.body

end Blockwork.Target
