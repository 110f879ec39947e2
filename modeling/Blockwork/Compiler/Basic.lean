import Blockwork.Interpreter.Basic

/-! Compilation: the same walk over the blocks as a run, with expressions in place of values. Both
branches are compiled, whatever their condition. -/

namespace Blockwork

open Target

abbrev Compilation (α : Type) := Traversal EngineError Expr α

inductive Code where
  | expression (e : Expr)
  | statements (body : List Stmt)

/-- What the chain in a slot becomes: the expression of its first block, or the statements of all
its blocks. -/
structure SlotCode where
  expression : Compilation Expr
  statements : Compilation (List Stmt)

instance : MonadLift (Except EngineError) (ExceptT EngineError (StateM (Context Expr))) :=
  ⟨fun e c => (e, c)⟩

namespace Compilation

def declare (name : String) (value : Expr) : Compilation Unit :=
  modify fun c => c.declare name value

end Compilation

namespace Parts

def compile (p : Parts SlotCode) (name : String) : Compilation Expr := do
  (← p.value name).meaning.expression

def compileText (p : Parts SlotCode) (name : String) : Compilation Expr := do
  return (← p.compile name).toText

/-- The statements in a slot. A slot that is not there has none. -/
def compileBody (p : Parts SlotCode) (name : String) : Compilation (List Stmt) := do
  match p.statements.lookup name with
  | none => return []
  | some plug => plug.meaning.statements

end Parts
end Blockwork
