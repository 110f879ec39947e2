import Blockwork.Block.Behaviour

/-! Runs of chains. The blocks of a chain run one after the other until an escape is pending; the
value of a chain is that of its first block. -/

namespace Blockwork

variable {κ : Type} [Behaviour κ]

mutual

def Block.evaluate (limit : Nat) : Block κ → Run Value
  | ⟨kind, tag, id, fields, values, statements, mutations, _⟩ =>
    Behaviour.evaluate limit
      { tag, id, fields, mutations
        values := evaluateSockets limit values
        statements := evaluateSockets limit statements } kind

def evaluateSockets (limit : Nat) : List (Socket κ) → List (String × Plug (Run Value))
  | [] => []
  | ⟨name, chain⟩ :: rest =>
    (name, ⟨!chain.isEmpty, fun c => evaluateChain limit chain c⟩) :: evaluateSockets limit rest

def evaluateChain (limit : Nat) : List (Block κ) → Run Value
  | [] => return .null
  | block :: rest => do
    let v ← block.evaluate limit
    evaluateRest limit rest
    return v

def evaluateRest (limit : Nat) : List (Block κ) → Run Unit
  | [] => return ()
  | block :: rest => do
    if (← MonadState.get).escape = .none then
      let _ ← block.evaluate limit
      evaluateRest limit rest

end

def Block.runParts (limit : Nat) (b : Block κ) : Parts (Run Value) :=
  { tag := b.tag
    id := b.id
    fields := b.fields
    mutations := b.mutations
    values := evaluateSockets limit b.values
    statements := evaluateSockets limit b.statements }

end Blockwork
