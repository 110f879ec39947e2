import Blockwork.Text.Blank
import Blockwork.Text.Cased
import Blockwork.Text.CaseMap

/-! Upper, lower and title case of whole texts. -/

namespace Blockwork.Text

def upper (s : String) : String := String.ofList (s.toList.flatMap upperChar)

def nextCased (cs : List Char) : Bool := (cs.dropWhile isCaseIgnorable).head?.any isCased

/-- A capital sigma becomes its final form after a cased character with none behind it. The
characters before the current one are given in reverse. -/
def lowerChars (before : List Char) : List Char → List Char
  | [] => []
  | c :: rest =>
    (if c = 'Σ' then [if nextCased before && !nextCased rest then 'ς' else 'σ'] else lowerChar c) ++
      lowerChars (c :: before) rest

def lower (s : String) : String := String.ofList (lowerChars [] s.toList)

def titleChars (atStart : Bool) : List Char → List Char
  | [] => []
  | c :: rest =>
    if isBlank c then c :: titleChars true rest
    else (if atStart then upperChar c else lowerChar c) ++ titleChars false rest

def title (s : String) : String := String.ofList (titleChars true s.toList)

end Blockwork.Text
