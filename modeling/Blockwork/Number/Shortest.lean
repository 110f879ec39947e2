import Blockwork.Number.Binary

/-! The fewest decimal digits that read back as a given double. The reals that round to a double
form an interval; the answer is a multiple of the greatest power of ten that has a multiple in it. -/

namespace Blockwork.Number

structure Decimal where
  digits : Nat
  exponent : Int
deriving Repr, DecidableEq

structure Rounding where
  value : Nat
  low : Nat
  high : Nat
  denominator : Nat
  closed : Bool

namespace Rounding

/-- The ends lie halfway to the neighbours. Below a power of two the neighbour is twice as near;
the ends round to the double itself exactly if its significand is even. -/
def ofBinary (b : Binary) : Rounding :=
  let unit := Nat.pow 2 (b.exponent - 2).toNat
  let nearBelow := b.significand = Nat.pow 2 52 && b.exponent > -1074
  { value := 4 * b.significand * unit
    low := (4 * b.significand - if nearBelow then 1 else 2) * unit
    high := (4 * b.significand + 2) * unit
    denominator := Nat.pow 2 (2 - b.exponent).toNat
    closed := b.significand % 2 = 0 }

def inUnits (r : Rounding) (p : Int) : Rounding :=
  let times := Nat.pow 10 (-p).toNat
  { r with
    value := r.value * times
    low := r.low * times
    high := r.high * times
    denominator := r.denominator * Nat.pow 10 p.toNat }

def contains (r : Rounding) (n : Nat) : Bool :=
  let scaled := n * r.denominator
  if r.closed then r.low ≤ scaled && scaled ≤ r.high else r.low < scaled && scaled < r.high

inductive Tie where
  | up
  | toEven

def nearest? (r : Rounding) (tie : Tie) : Option Nat :=
  let below := r.value / r.denominator
  match r.contains below, r.contains (below + 1) with
  | true, false => some below
  | false, true => some (below + 1)
  | false, false => none
  | true, true =>
    let excess := 2 * (r.value % r.denominator)
    if excess < r.denominator then some below
    else if excess > r.denominator then some (below + 1)
    else match tie with
      | .up => some (below + 1)
      | .toEven => some (if below % 2 = 0 then below else below + 1)

def search (r : Rounding) (tie : Tie) : Nat → Int → Decimal
  | 0, p => ⟨(r.inUnits p).value / (r.inUnits p).denominator, p⟩
  | fuel + 1, p =>
    match (r.inUnits p).nearest? tie with
    | some digits => ⟨digits, p⟩
    | none => search r tie fuel (p - 1)

end Rounding

/-- The shortest decimal of a nonzero magnitude. The first power of ten tried exceeds the number;
a grid about twenty steps finer separates all doubles. -/
def Binary.shortest (b : Binary) (tie : Rounding.Tie) : Decimal :=
  let above := (b.significand.log2 + 1 + b.exponent) * 30103 / 100000 + 2
  (Rounding.ofBinary b).search tie 40 above

end Blockwork.Number
