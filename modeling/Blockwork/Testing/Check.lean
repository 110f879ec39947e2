import Blockwork.Binding
import Blockwork.Target.Print
import Blockwork.Testing.Case
import Blockwork.Text.Lines
import Blockwork.Text.Search
import Blockwork.Workspace

/-! Checking a test case: the first expectation that does not hold decides why it fails. -/

namespace Blockwork.Testing

inductive Failure where
  | unreadable (reason : FileError)
  | unreadCase (flaw : CaseFlaw)
  | noProgram (path : String) (reason : FileError)
  | loaded
  | unloadable (e : EngineError)
  | compiled (expected : String)
  | otherRefusal (expected : String) (e : EngineError)
  | refused (e : EngineError)
  | missingCode (missing : List String) (code : String)
  | global (e : BindingError)
  | ran (expected : String)
  | otherError (expected : String) (e : EngineError)
  | halted (halt : Halt)
  | noValue (name : String) (cause : ForeignValue)
  | unequal (name : String) (expected actual : Value)

namespace Failure

def indented (text : String) : String :=
  "\n".intercalate ((Text.lines text).map ("    " ++ ·))

def quoted (s : String) : String := "\"" ++ s ++ "\""

def message : Failure → String
  | .unreadable reason => "cannot read file: " ++ reason.text
  | .unreadCase flaw => "TOML parse error: " ++ flaw.text
  | .noProgram path reason => "cannot read program '" ++ path ++ "': " ++ reason.text
  | .loaded => "expected parse error, but parsing succeeded"
  | .unloadable e => "unexpected parse error: " ++ e.message
  | .compiled expected =>
    "expected generate error containing " ++ quoted expected ++ ", but generation succeeded"
  | .otherRefusal expected e =>
    "expected generate error containing " ++ quoted expected ++ ", got: " ++ e.message
  | .refused e => "unexpected generate error: " ++ e.message
  | .missingCode missing code =>
    "generated source is missing [" ++ ", ".intercalate (missing.map Text.visible.quote) ++
      "]\n  source:\n" ++ indented code
  | .global e => e.message
  | .ran expected =>
    "expected error containing " ++ quoted expected ++ ", but execution succeeded"
  | .otherError expected e =>
    "expected error containing " ++ quoted expected ++ ", got: " ++ e.message
  | .halted halt => "unexpected runtime error: " ++ halt.message
  | .noValue name cause => "binding `" ++ name ++ "`: " ++ cause.text
  | .unequal name expected actual =>
    "binding `" ++ name ++ "` mismatch\n  expected: " ++ expected.json.render ++
      "\n  actual:   " ++ actual.json.render

end Failure

section Check

variable {κ : Type} [Behaviour κ]

def checkCompilation (w : Workspace κ) (expect : Expectations) : Except Failure Unit :=
  if expect.generateError.isNone && expect.codeContains.isEmpty then .ok ()
  else
    match w.compile, expect.generateError with
    | .error e, some expected =>
      if Text.occursIn expected e.message then .ok () else .error (.otherRefusal expected e)
    | .ok _, some expected => .error (.compiled expected)
    | .error e, none => .error (.refused e)
    | .ok program, none =>
      let code := program.print
      let missing := expect.codeContains.filter fun text => !Text.occursIn text code
      if missing.isEmpty then .ok () else .error (.missingCode missing code)

/-- A variable that is not bound counts as null. -/
def checkBindings (bound : Entries Value) : Toml.Table → Except Failure Unit
  | [] => .ok ()
  | (name, item) :: rest =>
    match Value.ofToml item with
    | .error cause => .error (.noValue name cause)
    | .ok expected =>
      let actual := (bound.get? name).getD .null
      if actual.equals expected then checkBindings bound rest
      else .error (.unequal name expected actual)

def checkRun (outcome : Except Halt Workspace.Execution) (expect : Expectations) :
    Except Failure Unit :=
  match outcome, expect.error with
  | .error .unfinished, _ => .error (.halted .unfinished)
  | .error (.error e), some expected =>
    if Text.occursIn expected e.message then .ok () else .error (.otherError expected e)
  | .error halt, none => .error (.halted halt)
  | .ok _, some expected => .error (.ran expected)
  | .ok execution, none =>
    match expect.bindings with
    | some bindings => checkBindings execution.bindings bindings
    | none => .ok ()

def Case.check (registry : Registry κ) (limit : Nat) (case : Case) (source : String) :
    Except Failure Unit := do
  let expect := case.expect
  match Workspace.ofText registry source with
  | .error e => if expect.parseError then .ok () else .error (.unloadable e)
  | .ok w =>
    if expect.parseError then throw .loaded
    checkCompilation w expect
    match Bindings.ofTable case.globals with
    | .error e => .error (.global e)
    | .ok globals => checkRun (w.run limit globals) expect

end Check

end Blockwork.Testing
