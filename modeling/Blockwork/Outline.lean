import Blockwork.Number.Layout
import Blockwork.Text.Quoted

/-! Outlines: trees of named parts, written with one part a line. -/

namespace Blockwork

inductive Outline where
  | leaf (text : String)
  | list (items : List Outline)
  | tuple (name : String) (parts : List Outline)
  | record (name : String) (fields : List (String × Outline))

namespace Outline

def floatLayout : Number.Layout :=
  ⟨"NaN", "inf", true, true, some (-4, 16), false, .up⟩

def float (x : Float) : Outline := .leaf (floatLayout.render x)

def text (s : String) : Outline := .leaf (Text.visible.quote s)

def bool (b : Bool) : Outline := .leaf (if b then "true" else "false")

def newLine (depth : Nat) : String := "\n" ++ String.ofList (List.replicate (4 * depth) ' ')

mutual

def render (depth : Nat) : Outline → String
  | .leaf s => s
  | .list [] => "[]"
  | .list items => "[" ++ renderParts (depth + 1) items ++ newLine depth ++ "]"
  | .tuple name parts => name ++ "(" ++ renderParts (depth + 1) parts ++ newLine depth ++ ")"
  | .record name fields =>
    name ++ " \x7b" ++ renderFields (depth + 1) fields ++ newLine depth ++ "\x7d"

def renderParts (depth : Nat) : List Outline → String
  | [] => ""
  | part :: rest => newLine depth ++ part.render depth ++ "," ++ renderParts depth rest

def renderFields (depth : Nat) : List (String × Outline) → String
  | [] => ""
  | (name, part) :: rest =>
    newLine depth ++ name ++ ": " ++ part.render depth ++ "," ++ renderFields depth rest

end

end Outline
end Blockwork
