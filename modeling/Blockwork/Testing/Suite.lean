import Blockwork.Files

/-! Suites: the case files below a folder, grouped by the folder that they are in. -/

namespace Blockwork.Testing

def caseSuffix : String := ".test.toml"

def isCaseName (name : String) : Bool := caseSuffix.toList.isSuffixOf name.toList

/-- The category of a file is its folder as seen from the root, with a slash for each backslash.
The root is the empty category. -/
def categoryOf (file : Path) : String :=
  String.ofList (("/".intercalate file.dropLast).toList.map fun c => if c = '\\' then '/' else c)

structure Category where
  name : String
  files : List Path

structure Suite where
  categories : List Category

namespace Suite

def isCaseFile (file : Path) : Bool := file.getLast?.any isCaseName

def ofCaseFiles (files : List Path) : Suite :=
  let names := (files.map categoryOf).eraseDups.mergeSort fun a b => a ≤ b
  ⟨names.map fun name =>
    ⟨name, (files.filter (categoryOf · = name)).mergeSort Path.precedes⟩⟩

def ofFiles (files : List Path) : Suite := ofCaseFiles (files.filter isCaseFile)

def names (s : Suite) : List String := s.categories.map Category.name

def isEmpty (s : Suite) : Bool := s.categories.isEmpty

def within (category wanted : String) : Bool :=
  category = wanted || (wanted.toList ++ ['/']).isPrefixOf category.toList

/-- Slashes around a wanted name do not count. -/
def trimSlashes (wanted : String) : String :=
  let front := wanted.toList.dropWhile (· = '/')
  String.ofList (front.reverse.dropWhile (· = '/')).reverse

def absent (s : Suite) (wanted : List String) : List String :=
  wanted.filter fun want => !s.names.any fun name => within name want

/-- The categories that are wanted; all of them if no name is given. -/
def select (s : Suite) (wanted : List String) : Suite :=
  if wanted.isEmpty then s
  else ⟨s.categories.filter fun c => wanted.any fun want => within c.name want⟩

end Suite
end Blockwork.Testing
