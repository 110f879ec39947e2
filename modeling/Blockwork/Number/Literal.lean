import Blockwork.Number.Binary

/-! Numbers as they are written in a program: an optional sign, digits with an optional point and
an optional exponent, or the words for infinity and NaN in any case. -/

namespace Blockwork.Number

/-- A written number. A NaN has no sign as a value, so a minus sign in front of it is kept apart. -/
structure Literal where
  value : Float
  negativeNaN : Bool := false

namespace Literal

def isNegative (l : Literal) : Bool := l.value < 0 || (l.value.isNaN && l.negativeNaN)

end Literal

def ofDigits (ds : List Char) : Nat := ds.foldl (fun n c => 10 * n + (c.toNat - '0'.toNat)) 0

/-- The double nearest to `digits * 10 ^ exponent`. No double is as large as `10 ^ 310` or, but for
zero, as small as `10 ^ -330`. -/
def nearest (digits : Nat) (exponent : Int) : Float :=
  let magnitude := digits.log2 * 30103 / 100000 + exponent
  if digits = 0 || magnitude < -330 then 0
  else if magnitude > 310 then 1.0 / 0.0
  else Float.ofScientific digits (exponent < 0) exponent.natAbs

def takeSign : List Char → Bool × List Char
  | '-' :: rest => (true, rest)
  | '+' :: rest => (false, rest)
  | rest => (false, rest)

def readExponent? : List Char → Option Int
  | [] => some 0
  | c :: rest =>
    let (negative, digits) := takeSign rest
    if (c = 'e' || c = 'E') && !digits.isEmpty && digits.all Char.isDigit then
      some (if negative then -(ofDigits digits : Int) else ofDigits digits)
    else none

def splitPoint (cs : List Char) : List Char × List Char × List Char :=
  let whole := cs.takeWhile Char.isDigit
  match cs.dropWhile Char.isDigit with
  | '.' :: rest => (whole, rest.takeWhile Char.isDigit, rest.dropWhile Char.isDigit)
  | rest => (whole, [], rest)

/-- A number without a sign; one digit on either side of the point suffices. -/
def readMagnitude? (cs : List Char) : Option Float :=
  let (whole, fraction, rest) := splitPoint cs
  if whole.isEmpty && fraction.isEmpty then
    let word := String.ofList (cs.map Char.toLower)
    if word = "inf" || word = "infinity" then some (1.0 / 0.0)
    else if word = "nan" then some (0.0 / 0.0)
    else none
  else (readExponent? rest).map fun exponent =>
    nearest (ofDigits (whole ++ fraction)) (exponent - fraction.length)

def read? (s : String) : Option Literal :=
  let (negative, rest) := takeSign s.toList
  (readMagnitude? rest).map fun x =>
    { value := if negative then -x else x
      negativeNaN := negative && x.isNaN }

end Blockwork.Number
