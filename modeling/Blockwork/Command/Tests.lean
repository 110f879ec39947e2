import Blockwork.Command.Output
import Blockwork.Testing.Report

/-! The commands on test cases: running them and listing their categories. -/

namespace Blockwork.Command

open Testing

variable {m : Type → Type} [Monad m] (disk : Disk m) (limit : Nat)

def resultOf (path : String) (text : Except FileError String)
    (readProgram : String → m (Except FileError String)) : m Result := do
  match text with
  | .error reason => return ⟨path, none, .error (.unreadable reason)⟩
  | .ok text =>
    match Case.ofText text with
    | .error flaw => return ⟨path, none, .error (.unreadCase flaw)⟩
    | .ok case =>
      let program := Path.join (Path.folder path) case.program
      match ← readProgram program with
      | .error reason => return ⟨path, case.description, .error (.noProgram program reason)⟩
      | .ok source =>
        return ⟨path, case.description, case.check (.standard (id : Kind → Kind)) limit source⟩

def runCase (path : String) : m Result := do
  resultOf limit path (← disk.readText path) disk.readText

def runCategory (root : String) (c : Category) : m Section := do
  let results ← c.files.mapM fun file => runCase disk limit (Path.below root file)
  return ⟨some c.name, results⟩

def reportOutput (colour : Bool) (sections : List Section) : Output :=
  { code := if Report.allPassed sections then 0 else 1
    stderr := Report.render colour sections }

def noCases (path : String) : String := "no " ++ caseSuffix ++ " files found in " ++ path ++ "\n"

def warning (s : Suite) (want : String) : String :=
  "warning: category '" ++ want ++ "' not found (available: " ++
    ", ".intercalate (s.names.map categoryLabel) ++ ")\n"

def runSuite (path : String) (categories : List String) (colour : Bool) : m Output := do
  let suite := Suite.ofFiles (← disk.filesBelow path limit [[]])
  if suite.isEmpty then return { code := 1, stderr := noCases path }
  let wanted := categories.map Suite.trimSlashes
  let warnings := String.join ((suite.absent wanted).map (warning suite))
  let selected := suite.select wanted
  if selected.isEmpty then
    return { code := 1, stderr := warnings ++ "no matching categories found\n" }
  let output := reportOutput colour (← selected.categories.mapM (runCategory disk limit path))
  return { output with stderr := warnings ++ output.stderr }

def runTests (path : String) (categories : List String) (colour : Bool) : m Output := do
  if ← disk.isFile path then
    return reportOutput colour [⟨none, [← runCase disk limit path]⟩]
  else runSuite disk limit path categories colour

def categoryLine (c : Category) : String :=
  "  " ++ categoryLabel c.name ++ " (" ++ Nat.repr c.files.length ++ " tests)"

def listCategories (path : String) : m Output := do
  if ← disk.isFile path then return { stderr := "(single file, no categories)\n" }
  let suite := Suite.ofFiles (← disk.filesBelow path limit [[]])
  if suite.isEmpty then return { stderr := noCases path }
  return { stderr := Text.unlines ("available categories:" :: suite.categories.map categoryLine) }

end Blockwork.Command
