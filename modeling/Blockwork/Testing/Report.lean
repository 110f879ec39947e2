import Blockwork.Testing.Check
import Blockwork.Testing.Suite

/-! Reports: a line for each case under the name of its category, then the failures and the sums. -/

namespace Blockwork.Testing

structure Result where
  path : String
  description : Option String
  outcome : Except Failure Unit

namespace Result

def passed (r : Result) : Bool := r.outcome.isOk

def label (r : Result) : String :=
  r.description.getD
    (String.ofList (Text.dropSuffixes caseSuffix.toList (Path.fileName r.path).toList))

end Result

/-- The results of a category, which has no name if a single file was asked for. -/
structure Section where
  category : Option String
  results : List Result

def paint (colour : Bool) (style text : String) : String :=
  if colour then "\x1b[" ++ style ++ "m" ++ text ++ "\x1b[0m" else text

def categoryLabel (name : String) : String := if name.isEmpty then "(root)" else name

namespace Report

def resultLine (colour : Bool) (r : Result) : String :=
  (if r.passed then "  " ++ paint colour "32" "PASS" else "  " ++ paint colour "31" "FAIL") ++
    "  " ++ r.label

def sectionLines (colour : Bool) (s : Section) : List String :=
  (match s.category with
    | some name => ["", paint colour "1" (categoryLabel name)]
    | none => []) ++
  s.results.map (resultLine colour)

def failureLines (r : Result) : List String :=
  match r.outcome with
  | .ok () => []
  | .error failure =>
    "" :: ("  --- " ++ r.path ++ " ---") :: (Text.lines failure.message).map ("  " ++ ·)

def results (sections : List Section) : List Result := sections.flatMap Section.results

def allPassed (sections : List Section) : Bool := (results sections).all Result.passed

def summary (colour : Bool) (all : List Result) : String :=
  let passed := (all.filter Result.passed).length
  let failed := all.length - passed
  if failed = 0 then
    "test result: " ++ paint colour "32" "ok" ++ ". " ++ Nat.repr passed ++ " passed, 0 failed"
  else
    "test result: " ++ paint colour "31" "FAILED" ++ ". " ++ Nat.repr passed ++ " passed, " ++
      Nat.repr failed ++ " failed (of " ++ Nat.repr all.length ++ ")"

def render (colour : Bool) (sections : List Section) : String :=
  let all := results sections
  Text.unlines (
    sections.flatMap (sectionLines colour) ++
    (if allPassed sections then [] else ["", "failures:"]) ++
    all.flatMap failureLines ++
    ["", summary colour all])

end Report
end Blockwork.Testing
