import Blockwork.Command.Basic
import Blockwork.Command.Programs
import Blockwork.Command.Tests

/-! What each command does with the files that it is given. -/

namespace Blockwork.Command

variable {m : Type → Type} [Monad m] (disk : Disk m) (limit : Nat)

def perform (invocation : Invocation) : m Output :=
  match invocation.command with
  | .run file globals json => settle (runProgram disk limit file globals json)
  | .generate file tree => settle (generateProgram disk file tree)
  | .check file listBlocks => settle (checkProgram disk file listBlocks)
  | .test path categories listOnly =>
    if listOnly then listCategories disk limit path
    else runTests disk limit path categories invocation.colour

def usage : Output :=
  { code := 2
    stderr := "usage: blocks [--no-color] [-v] (run [-g FILE] [--json] | generate [--tree] | " ++
      "check [--list-blocks] | test [-c CATEGORY] [--list-categories]) PATH\n" }

def performArgs (args : List String) : m Output :=
  match ofArgs? args with
  | some invocation => perform disk limit invocation
  | none => return usage

end Blockwork.Command
