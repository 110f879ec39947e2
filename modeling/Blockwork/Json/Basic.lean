import Blockwork.Entries
import Blockwork.Number.Layout
import Blockwork.Text.Quoted

/-! JSON values and their two written forms: compact, and indented with one item a line. -/

namespace Blockwork

/-- A value whose whole numbers are kept apart from its doubles. -/
inductive Json where
  | null
  | bool (b : Bool)
  | int (n : Int)
  | float (x : Float)
  | string (s : String)
  | array (items : List Json)
  | object (members : List (String × Json))
deriving Inhabited

namespace Json

/-- Doubles always show a point or an exponent, so that they read back as doubles. -/
def floatLayout : Number.Layout :=
  ⟨"null", "null", true, true, some (-5, 16), true, .toEven⟩

def floatText (x : Float) : String := floatLayout.render x

def intText : Int → String
  | .ofNat n => Nat.repr n
  | .negSucc n => "-" ++ Nat.repr (n + 1)

mutual

def render : Json → String
  | .null => "null"
  | .bool b => if b then "true" else "false"
  | .int n => intText n
  | .float x => floatText x
  | .string s => Text.json.quote s
  | .array items => "[" ++ renderItems items ++ "]"
  | .object members => "\x7b" ++ renderMembers members ++ "\x7d"

def renderItems : List Json → String
  | [] => ""
  | [item] => item.render
  | item :: rest => item.render ++ "," ++ renderItems rest

def renderMembers : List (String × Json) → String
  | [] => ""
  | [(key, value)] => Text.json.quote key ++ ":" ++ value.render
  | (key, value) :: rest =>
    Text.json.quote key ++ ":" ++ value.render ++ "," ++ renderMembers rest

end

def newLine (depth : Nat) : String := "\n" ++ String.ofList (List.replicate (2 * depth) ' ')

mutual

def renderIndented (depth : Nat) : Json → String
  | .array [] => "[]"
  | .array items =>
    "[" ++ indentedItems (depth + 1) items ++ newLine depth ++ "]"
  | .object [] => "\x7b\x7d"
  | .object members =>
    "\x7b" ++ indentedMembers (depth + 1) members ++ newLine depth ++ "\x7d"
  | .null => "null"
  | .bool b => if b then "true" else "false"
  | .int n => intText n
  | .float x => floatText x
  | .string s => Text.json.quote s

def indentedItems (depth : Nat) : List Json → String
  | [] => ""
  | [item] => newLine depth ++ item.renderIndented depth
  | item :: rest =>
    newLine depth ++ item.renderIndented depth ++ "," ++ indentedItems depth rest

def indentedMembers (depth : Nat) : List (String × Json) → String
  | [] => ""
  | [(key, value)] => newLine depth ++ Text.json.quote key ++ ": " ++ value.renderIndented depth
  | (key, value) :: rest =>
    newLine depth ++ Text.json.quote key ++ ": " ++ value.renderIndented depth ++ "," ++
      indentedMembers depth rest

end

end Json
end Blockwork
