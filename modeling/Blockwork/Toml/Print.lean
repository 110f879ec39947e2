import Blockwork.Number.Layout
import Blockwork.Toml.Basic

/-! The written form of TOML values. A text takes the first form that can hold it: plain between
quotes, literal, then the same on several lines, and escaped as a last resort. -/

namespace Blockwork.Toml

def longestRun (c : Char) (cs : List Char) : Nat :=
  go 0 0 cs
where
  go (run best : Nat) : List Char → Nat
    | [] => max run best
    | d :: rest => if d = c then go (run + 1) best rest else go 0 (max run best) rest

def isControl (c : Char) : Bool := (c.toNat < 32 && c ≠ '\t' && c ≠ '\n') || c.toNat = 127

def hexQuad (n : Nat) : List Char :=
  let digits := (Nat.toDigits 16 n).map Char.toUpper
  List.replicate (4 - digits.length) '0' ++ digits

def escaped (multiline : Bool) (c : Char) : List Char :=
  if c = '\x08' then ['\\', 'b']
  else if c = '\t' then ['\\', 't']
  else if c = '\n' then if multiline then ['\n'] else ['\\', 'n']
  else if c = '\x0c' then ['\\', 'f']
  else if c = '\r' then ['\\', 'r']
  else if c = '\\' then ['\\', '\\']
  else if isControl c then ['\\', 'u'] ++ hexQuad c.toNat
  else [c]

/-- Of each row of quotes, those past the allowed number are escaped, and then the count starts
again. -/
def escapedChars (multiline : Bool) (quotes : Nat) : List Char → List Char
  | [] => []
  | c :: rest =>
    if c = '"' then
      if quotes < (if multiline then 2 else 0) then '"' :: escapedChars multiline (quotes + 1) rest
      else '\\' :: '"' :: escapedChars multiline 0 rest
    else escaped multiline c ++ escapedChars multiline 0 rest

def fence (mark : String) (cs body : List Char) : String :=
  mark ++ (if cs.contains '\n' then "\n" else "") ++ String.ofList body ++ mark

def basic (cs : List Char) : String := "\"" ++ String.ofList (escapedChars false 0 cs) ++ "\""

def literal (cs : List Char) : String := "'" ++ String.ofList cs ++ "'"

def basicBlock (cs : List Char) : String := fence "\"\"\"" cs (escapedChars true 0 cs)

def literalBlock (cs : List Char) : String := fence "'''" cs cs

def stringText (s : String) : String :=
  let cs := s.toList
  let control := cs.any isControl
  let newline := cs.contains '\n'
  let backslash := cs.contains '\\'
  let double := longestRun '"' cs
  let single := longestRun '\'' cs
  if !control && !backslash && double = 0 && !newline then basic cs
  else if !control && single = 0 && !newline then literal cs
  else if !control && !backslash && double ≤ 2 then basicBlock cs
  else if !control && single ≤ 2 then literalBlock cs
  else if newline then basicBlock cs
  else basic cs

/-- Floats are written in full and always show a point or their name. -/
def floatLayout : Number.Layout := ⟨"nan", "inf", true, true, none, false, .up⟩

def intText : Int → String
  | .ofNat n => Nat.repr n
  | .negSucc n => "-" ++ Nat.repr (n + 1)

def keyText (name : String) : String :=
  if !name.isEmpty && name.toList.all isBareChar then name else stringText name

mutual

def render : Toml → String
  | .integer n => intText n
  | .float x => floatLayout.render x
  | .boolean b => if b then "true" else "false"
  | .string s => stringText s
  | .moment m => m.text
  | .array items => "[" ++ renderItems items ++ "]"
  | .table [] => "\x7b\x7d"
  | .table members => "\x7b " ++ renderMembers members ++ " \x7d"

def renderItems : List Toml → String
  | [] => ""
  | [item] => item.render
  | item :: rest => item.render ++ ", " ++ renderItems rest

def renderMembers : List (String × Toml) → String
  | [] => ""
  | [(name, value)] => keyText name ++ " = " ++ value.render
  | (name, value) :: rest =>
    keyText name ++ " = " ++ value.render ++ ", " ++ renderMembers rest

end
end Blockwork.Toml
