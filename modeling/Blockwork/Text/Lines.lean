/-! The lines of a text. -/

namespace Blockwork.Text

/-- The lines with their line feeds. There is always a last line, and it has none. -/
def fullLines : List Char → List (List Char)
  | [] => [[]]
  | c :: rest =>
    if c = '\n' then ['\n'] :: fullLines rest
    else
      match fullLines rest with
      | [] => [[c]]
      | line :: lines => (c :: line) :: lines

def dropLineEnd (line : List Char) : List Char :=
  match line.reverse with
  | '\n' :: '\r' :: rest => rest.reverse
  | '\n' :: rest => rest.reverse
  | _ => line

def lines (s : String) : List String :=
  let all := fullLines s.toList
  let shown := if all.getLast? = some [] then all.dropLast else all
  shown.map fun line => String.ofList (dropLineEnd line)

def unlines (ls : List String) : String := String.join (ls.map (· ++ "\n"))

end Blockwork.Text
