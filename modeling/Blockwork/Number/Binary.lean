/-! Doubles as exact binary fractions, and the operations on them that are decided by exact
arithmetic: whole part, rounding to a whole number, remainder and primality. -/

namespace Blockwork.Number

structure Binary where
  negative : Bool
  significand : Nat
  exponent : Int
deriving Repr, DecidableEq

namespace Binary

/-- The exact value of a finite double; the least exponent is that of the subnormal numbers. -/
def ofFloat? (x : Float) : Option Binary :=
  let word := x.toBits.toNat
  let fraction : Nat := word % Nat.pow 2 52
  let field : Nat := word / Nat.pow 2 52 % Nat.pow 2 11
  if field = 2047 then none
  else if field = 0 then some ⟨word / Nat.pow 2 63 = 1, fraction, -1074⟩
  else some ⟨word / Nat.pow 2 63 = 1, Nat.pow 2 52 + fraction, field - 1075⟩

def toFloat (b : Binary) : Float :=
  let shift := min (52 - b.significand.log2) (b.exponent + 1074).toNat
  let significand := b.significand * Nat.pow 2 shift
  let field := if significand < Nat.pow 2 52 then 0 else (b.exponent - shift + 1075).toNat
  let sign := if b.negative then Nat.pow 2 63 else 0
  Float.ofBits (UInt64.ofNat (sign + field * Nat.pow 2 52 + significand % Nat.pow 2 52))

/-- The number of units in one, where the number has a fraction at all. -/
def scale (b : Binary) : Nat := Nat.pow 2 (-b.exponent).toNat

def whole (b : Binary) : Nat := b.significand * Nat.pow 2 b.exponent.toNat / b.scale

def isWhole (b : Binary) : Bool := b.exponent ≥ 0 || b.significand % b.scale = 0

end Binary

/-- The sign bit, which a zero has too. A NaN counts as positive. -/
def isNegative (x : Float) : Bool := x.toBits.toNat / Nat.pow 2 63 = 1

def isWhole (x : Float) : Bool := (Binary.ofFloat? x).any Binary.isWhole

private def signed (negative : Bool) (n : Nat) : Float :=
  if negative then -(Float.ofNat n) else Float.ofNat n

/-- Rounds a number with a fraction to one of its whole neighbours: `away` says, by the sign,
whether it is the one farther from zero. Whole numbers, infinities and NaN stay. -/
private def toNeighbour (away : Bool → Bool) (x : Float) : Float :=
  match Binary.ofFloat? x with
  | none => x
  | some b =>
    if b.isWhole then x
    else signed b.negative (if away b.negative then b.whole + 1 else b.whole)

def floor (x : Float) : Float := toNeighbour (fun negative => negative) x

def ceil (x : Float) : Float := toNeighbour (fun negative => !negative) x

/-- The whole number nearest to `x` as the floor of the double `x + 0.5`. -/
def roundHalfUp (x : Float) : Float := floor (x + 0.5)

/-- The remainder of a division that rounds its quotient toward zero, computed exactly. It has
the sign of the dividend. -/
def remainder (x y : Float) : Float :=
  match Binary.ofFloat? x, Binary.ofFloat? y with
  | some a, some b =>
    if b.significand = 0 then 0.0 / 0.0
    else
      let least := min a.exponent b.exponent
      let dividend := a.significand * Nat.pow 2 (a.exponent - least).toNat
      let divisor := b.significand * Nat.pow 2 (b.exponent - least).toNat
      Binary.toFloat ⟨a.negative, dividend % divisor, least⟩
  | some _, none => if y.isNaN then y else x
  | none, _ => 0.0 / 0.0

/-- The greater of two numbers; a NaN gives way to the other one. -/
def maximum (x y : Float) : Float :=
  if x.isNaN then y else if y.isNaN then x else if x < y then y else x

def minimum (x y : Float) : Float :=
  if x.isNaN then y else if y.isNaN then x else if y < x then y else x

/-- No number of `d, d + 2, d + 4, …` up to the root of `n` divides `n`. -/
def noDivisorFrom (n d : Nat) : Bool :=
  if d * d > n then true
  else if n % d = 0 then false
  else noDivisorFrom n (d + 2)
termination_by n + 1 - d
decreasing_by
  have : d ≤ n := by
    cases d with
    | zero => exact Nat.zero_le n
    | succ d => exact Nat.le_trans (Nat.le_mul_of_pos_left _ (Nat.succ_pos d)) (Nat.le_of_not_gt ‹_›)
  omega

def isPrimeNat (n : Nat) : Bool :=
  n = 2 || (n > 2 && n % 2 = 1 && noDivisorFrom n 3)

def isPrime (x : Float) : Bool :=
  match Binary.ofFloat? x with
  | some b => b.isWhole && !b.negative && isPrimeNat b.whole
  | none => false

end Blockwork.Number
