import Blockwork.Entries
import Blockwork.Toml.Moment

/-! TOML values. -/

namespace Blockwork

inductive Toml where
  | integer (n : Int)
  | float (x : Float)
  | boolean (b : Bool)
  | string (s : String)
  | moment (m : Toml.Moment)
  | array (items : List Toml)
  /-- The members of a table stand in the order of their names. -/
  | table (members : List (String × Toml))
deriving Inhabited

def Entries.sorted {α : Type} (es : Entries α) : Entries α :=
  es.mergeSort fun a b => a.1 ≤ b.1

namespace Toml

abbrev Table := Entries Toml

def isInteger : Int → Bool
  | .ofNat n => n < Nat.pow 2 63
  | .negSucc n => n < Nat.pow 2 63

def text? : Toml → Option String
  | .string s => some s
  | _ => none

def bool? : Toml → Option Bool
  | .boolean b => some b
  | _ => none

def table? : Toml → Option Table
  | .table members => some members
  | _ => none

def texts? : Toml → Option (List String)
  | .array items => items.mapM text?
  | _ => none

def isBareChar (c : Char) : Bool := c.isAlphanum || c = '_' || c = '-'

end Toml
end Blockwork
