import Blockwork.Block.Kind

/-! Runs: a run changes a context and ends with a result or a halt. The context survives a halt. -/

namespace Blockwork

/-- Why a run ends without a result. A loop that is not over after the allowed number of rounds is
no error of the program. -/
inductive Halt where
  | error (e : EngineError)
  | unfinished

def Halt.message : Halt → String
  | .error e => e.message
  | .unfinished => "a loop is not over"

abbrev Traversal (ε V α : Type) := ExceptT ε (StateM (Context V)) α

abbrev Run (α : Type) := Traversal Halt Value α

def Run.ofExcept {α : Type} : Except EngineError α → Run α
  | .ok a => pure a
  | .error e => throw (.error e)

instance : MonadLift (Except EngineError) (ExceptT Halt (StateM (Context Value))) :=
  ⟨Run.ofExcept⟩

namespace Traversal

variable {ε V α : Type}

def inBranch (body : Traversal ε V α) : Traversal ε V α := fun c =>
  let (result, c) := body.run.run c.push
  (result, c.closeBranch)

def inLoop (body : Traversal ε V α) : Traversal ε V α := fun c =>
  let (result, c) := body.run.run c.push
  (result, c.closeLoop)

def takeEscape : Traversal ε V Escape := fun c => (.ok c.escape, c.setEscape .none)

end Traversal

namespace Run

/-- Repeats a step on a state until it gives none, at most `limit` times. -/
def iterate {σ : Type} (step : σ → Run (Option σ)) : Nat → σ → Run Unit
  | 0, _ => fun c => (.error .unfinished, c)
  | limit + 1, s => fun c =>
    match (step s).run.run c with
    | (.ok (some s), c) => iterate step limit s c
    | (.ok none, c) => (.ok (), c)
    | (.error e, c) => (.error e, c)

end Run

namespace Parts

def evaluate (p : Parts (Run Value)) (name : String) : Run Value := do
  (← p.value name).meaning

def evaluateCondition (p : Parts (Run Value)) (name : String) : Run Bool := do
  (← p.evaluate name).asCondition

def evaluateNumber (p : Parts (Run Value)) (name : String) : Run Float := do
  (← p.evaluate name).asNumber

def evaluateText (p : Parts (Run Value)) (name : String) : Run String := do
  return (← p.evaluate name).display

/-- Runs the chain in a statement slot. A slot that is not there does nothing. -/
def execute (p : Parts (Run Value)) (name : String) : Run Unit := do
  match p.statements.lookup name with
  | none => pure ()
  | some plug => let _ ← plug.meaning

end Parts

def Run.get (name : String) : Run Value := return ((← MonadState.get).get? name).getD .null

def Run.set (name : String) (v : Value) : Run Unit := modify fun c => c.set name v

end Blockwork
