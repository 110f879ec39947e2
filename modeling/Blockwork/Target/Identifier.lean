import Blockwork.Text.Blank

/-! Names of variables in the target language. -/

namespace Blockwork.Target

/-- Words of the language, and the names that compiled programs call. -/
def reserved : List String := [
  "await", "break", "case", "catch", "class", "const", "continue", "debugger", "default",
  "delete", "do", "else", "enum", "export", "extends", "false", "finally", "for", "function",
  "if", "implements", "import", "in", "instanceof", "interface", "let", "new", "null",
  "package", "private", "protected", "public", "return", "static", "super", "switch", "this",
  "throw", "true", "try", "typeof", "var", "void", "while", "with", "yield", "arguments",
  "eval", "undefined", "NaN", "Infinity", "Math", "String", "textToTitleCase", "listsRepeat"]

def isWordChar (c : Char) : Bool := c.isAlpha || c.isDigit || c = '_'

def isPlain (name : String) : Bool :=
  (name.toList.head?.any fun c => c.isAlpha || c = '_') && name.toList.all isWordChar &&
    !reserved.contains name

/-- Letters, digits and underscores stand for themselves; any other character is written by its
number between dollar signs. -/
def mangleChar (c : Char) : List Char :=
  if isWordChar c then [c] else '$' :: Nat.toDigits 16 c.toNat ++ ['$']

def identifier (name : String) : String :=
  if isPlain name then name else String.ofList ('$' :: name.toList.flatMap mangleChar)

end Blockwork.Target
