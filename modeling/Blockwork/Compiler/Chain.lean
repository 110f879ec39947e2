import Blockwork.Block.Behaviour

/-! Compilation of chains. As a statement a chain becomes the statements of all its blocks; as an
expression, that of its first block alone. -/

namespace Blockwork

open Target

variable {κ : Type} [Behaviour κ]

def Code.body : Code → List Stmt
  | .expression e => [.expr e]
  | .statements body => body

mutual

def Block.compile : Block κ → Compilation Code
  | ⟨kind, tag, id, fields, values, statements, mutations, _⟩ =>
    Behaviour.compile
      { tag, id, fields, mutations
        values := compileSockets values
        statements := compileSockets statements } kind

def compileSockets : List (Socket κ) → List (String × Plug SlotCode)
  | [] => []
  | ⟨name, chain⟩ :: rest =>
    (name, ⟨!chain.isEmpty,
      ⟨fun c => compileExpression chain c, fun c => compileChain chain c⟩⟩) :: compileSockets rest

def compileExpression : List (Block κ) → Compilation Expr
  | [] => return .null
  | block :: _ => do
    match ← block.compile with
    | .expression e => return e
    | .statements _ => throw (.mismatch "expression" ("statement block `" ++ block.tag ++ "`"))

def compileChain : List (Block κ) → Compilation (List Stmt)
  | [] => return []
  | block :: rest => do
    let code ← block.compile
    return code.body ++ (← compileChain rest)

end

def Block.codeParts (b : Block κ) : Parts SlotCode :=
  { tag := b.tag
    id := b.id
    fields := b.fields
    mutations := b.mutations
    values := compileSockets b.values
    statements := compileSockets b.statements }

end Blockwork
