import Blockwork.Binding
import Blockwork.Diagnostic
import Blockwork.Interpreter.Basic

/-! What commands write, and why they give up. -/

namespace Blockwork

structure Output where
  code : Nat := 0
  stdout : String := ""
  stderr : String := ""

inductive Trouble where
  | unreadable (path : String) (reason : FileError)
  | notToml (path : String)
  | global (e : BindingError)
  | unparsable (path source message : String) (span : Span)
  | engine (e : EngineError)
  | halted (halt : Halt)

namespace Trouble

def message : Trouble → String
  | .unreadable path reason => "cannot read '" ++ path ++ "': " ++ reason.text
  | .notToml path => "invalid globals file '" ++ path ++ "'"
  | .global e => e.message
  | .unparsable path _ _ _ => "could not parse '" ++ path ++ "'"
  | .engine e => e.message
  | .halted halt => halt.message

def diagnostic : Trouble → String
  | .unparsable path source message span => (Diagnostic.mk message path source span).render
  | _ => ""

def output (t : Trouble) : Output :=
  { code := 1, stderr := t.diagnostic ++ "error: " ++ t.message ++ "\n" }

end Trouble

namespace Command

abbrev Work (m : Type → Type) (α : Type) := ExceptT Trouble m α

variable {m : Type → Type} [Monad m] (disk : Disk m)

def read (path : String) : Work m String := do
  match ← disk.readText path with
  | .ok text => return text
  | .error reason => throw (.unreadable path reason)

def settle (work : Work m Output) : m Output := do
  match ← work.run with
  | .ok output => return output
  | .error trouble => return trouble.output

end Command
end Blockwork
