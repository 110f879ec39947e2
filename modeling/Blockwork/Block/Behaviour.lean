import Blockwork.Interpreter.Statements
import Blockwork.Compiler.Statements

/-! What it takes to be a kind of block: to run, and to be compiled, given the same for what is
plugged into the slots. -/

namespace Blockwork

/-- `limit` bounds the rounds of each loop. -/
class Behaviour (κ : Type) where
  evaluate : (limit : Nat) → Parts (Run Value) → κ → Run Value
  compile : Parts SlotCode → κ → Compilation Code

instance : Behaviour Kind := ⟨Kind.evaluate, Kind.compile⟩

structure HostKind where
  evaluate : Parts (Run Value) → Run Value
  compile : Parts SlotCode → Compilation Code

inductive OpenKind where
  | standard (kind : Kind)
  | host (kind : HostKind)

instance : Behaviour OpenKind where
  evaluate limit p
    | .standard kind => kind.evaluate limit p
    | .host kind => kind.evaluate p
  compile p
    | .standard kind => kind.compile p
    | .host kind => kind.compile p

end Blockwork
