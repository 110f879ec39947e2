import Blockwork.Outline
import Blockwork.Target.Expr

/-! Outlines of the trees of the target language. -/

namespace Blockwork.Target

def UnaryOp.name : UnaryOp → String
  | .negate => "Negate"
  | .not => "Not"
  | .typeOf => "TypeOf"

def BinaryOp.name : BinaryOp → String
  | .add => "Add"
  | .subtract => "Subtract"
  | .multiply => "Multiply"
  | .divide => "Divide"
  | .modulo => "Modulo"
  | .power => "Power"
  | .equal => "Equal"
  | .notEqual => "NotEqual"
  | .less => "Less"
  | .lessOrEqual => "LessOrEqual"
  | .greater => "Greater"
  | .greaterOrEqual => "GreaterOrEqual"
  | .and => "And"
  | .or => "Or"
  | .coalesce => "Coalesce"

mutual

def Expr.outline : Expr → Outline
  | .null => .leaf "Null"
  | .boolean b => .tuple "Boolean" [.bool b]
  | .number n => .tuple "Number" [.float n.value]
  | .text s => .tuple "Text" [.text s]
  | .list items => .tuple "List" [.list (outlines items)]
  | .variable name => .tuple "Variable" [.text name]
  | .assign name value => .record "Assign" [("name", .text name), ("value", value.outline)]
  | .unary op operand => .record "Unary" [("op", .leaf op.name), ("operand", operand.outline)]
  | .binary op left right =>
    .record "Binary" [("op", .leaf op.name), ("left", left.outline), ("right", right.outline)]
  | .conditional condition thenExpr elseExpr =>
    .record "Conditional" [("condition", condition.outline), ("then", thenExpr.outline),
      ("otherwise", elseExpr.outline)]
  | .call function args =>
    .record "Call" [("function", .text function), ("args", .list (outlines args))]
  | .method receiver name args =>
    .record "Method" [("receiver", receiver.outline), ("method", .text name),
      ("args", .list (outlines args))]
  | .member object property =>
    .record "Member" [("object", object.outline), ("property", .text property)]

def outlines : List Expr → List Outline
  | [] => []
  | e :: rest => e.outline :: outlines rest

end

mutual

def Stmt.outline : Stmt → Outline
  | .expr e => .tuple "Expr" [e.outline]
  | .branch condition body otherwise =>
    .record "If" [("condition", condition.outline), ("then", .list (bodyOutlines body)),
      ("otherwise", .list (bodyOutlines otherwise))]
  | .whileLoop condition body =>
    .record "While" [("condition", condition.outline), ("body", .list (bodyOutlines body))]
  | .forLoop start condition update body =>
    .record "For" [("init", start.outline), ("condition", condition.outline),
      ("update", update.outline), ("body", .list (bodyOutlines body))]
  | .forEach name sequence body =>
    .record "ForEach" [("variable", .text name), ("sequence", sequence.outline),
      ("body", .list (bodyOutlines body))]
  | .breaking => .leaf "Break"
  | .continuing => .leaf "Continue"

def bodyOutlines : List Stmt → List Outline
  | [] => []
  | s :: rest => s.outline :: bodyOutlines rest

end

def Program.outline (p : Program) : Outline :=
  .record "Program" [("variables", .list (p.declared.map .text)),
    ("body", .list (bodyOutlines p.body))]

end Blockwork.Target
