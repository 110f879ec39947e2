import Blockwork.Number.Shortest

/-! How a number is written. Each output format has one `Layout`; the digits are always the
shortest ones that read back. -/

namespace Blockwork.Number

structure Layout where
  nan : String
  infinity : String
  zeroSign : Bool
  wholePoint : Bool
  /-- The exponents of the leading digit from the first to below the second are written in full;
  the others in scientific form. -/
  positional : Option (Int × Int)
  exponentPlus : Bool
  tie : Rounding.Tie

namespace Layout

def zeros (n : Nat) : String := String.ofList (List.replicate n '0')

/-- All digits around the decimal point, which stands after `point` of them. -/
def inFull (l : Layout) (digits : List Char) (point : Int) : String :=
  if point ≤ 0 then "0." ++ zeros (-point).toNat ++ String.ofList digits
  else
    let whole := digits.take point.toNat
    let fraction := digits.drop point.toNat
    String.ofList whole ++ zeros (point.toNat - digits.length) ++
      if fraction.isEmpty then (if l.wholePoint then ".0" else "")
      else "." ++ String.ofList fraction

def scientific (l : Layout) (digits : List Char) (exponent : Int) : String :=
  let fraction := digits.drop 1
  String.ofList (digits.take 1) ++ (if fraction.isEmpty then "" else "." ++ String.ofList fraction) ++
    "e" ++ (if exponent < 0 then "-" else if l.exponentPlus then "+" else "") ++
    Nat.repr exponent.natAbs

def magnitude (l : Layout) (b : Binary) : String :=
  if b.significand = 0 then (if l.wholePoint then "0.0" else "0")
  else
    let decimal := b.shortest l.tie
    let digits := Nat.toDigits 10 decimal.digits
    let point := digits.length + decimal.exponent
    match l.positional with
    | none => l.inFull digits point
    | some (first, last) =>
      if first ≤ point - 1 && point - 1 < last then l.inFull digits point
      else l.scientific digits (point - 1)

def render (l : Layout) (x : Float) : String :=
  match Binary.ofFloat? x with
  | some b =>
    (if b.negative && (l.zeroSign || b.significand != 0) then "-" else "") ++ l.magnitude b
  | none => if x.isNaN then l.nan else if x < 0 then "-" ++ l.infinity else l.infinity

end Layout

/-- Numbers inside a program's own texts: no exponent, no sign on a zero. -/
def display : Layout :=
  ⟨"NaN", "Infinity", false, false, none, false, .up⟩

/-- Numbers inside error messages: as `display`, with a signed zero and a short infinity. -/
def diagnostic : Layout :=
  ⟨"NaN", "inf", true, false, none, false, .up⟩

def text (x : Float) : String := display.render x

end Blockwork.Number
