import Blockwork.Number.Literal

/-! Dates and times of day, alone or together, with an optional distance from universal time. -/

namespace Blockwork.Toml

structure Date where
  year : Nat
  month : Nat
  day : Nat
deriving Repr, DecidableEq

structure Clock where
  hour : Nat
  minute : Nat
  second : Nat
  nanosecond : Nat
deriving Repr, DecidableEq

inductive Offset where
  | universal
  | minutes (n : Int)
deriving Repr, DecidableEq

/-- A distance from universal time is given only with both a date and a time. -/
structure Moment where
  date : Option Date := none
  clock : Option Clock := none
  offset : Option Offset := none
deriving Repr, DecidableEq

def padded (width n : Nat) : String :=
  let digits := Nat.toDigits 10 n
  String.ofList (List.replicate (width - digits.length) '0' ++ digits)

namespace Date

def daysInMonth (year month : Nat) : Nat :=
  if month = 2 then
    if year % 4 = 0 && (year % 100 ≠ 0 || year % 400 = 0) then 29 else 28
  else if month = 4 || month = 6 || month = 9 || month = 11 then 30
  else 31

def isValid (d : Date) : Bool :=
  1 ≤ d.month && d.month ≤ 12 && 1 ≤ d.day && d.day ≤ daysInMonth d.year d.month

def text (d : Date) : String := padded 4 d.year ++ "-" ++ padded 2 d.month ++ "-" ++ padded 2 d.day

end Date

namespace Clock

/-- A minute may have a leap second. -/
def isValid (c : Clock) : Bool := c.hour ≤ 23 && c.minute ≤ 59 && c.second ≤ 60

def fraction (nanosecond : Nat) : String :=
  if nanosecond = 0 then ""
  else
    let digits := (padded 9 nanosecond).toList
    "." ++ String.ofList (digits.reverse.dropWhile (· = '0')).reverse

def text (c : Clock) : String :=
  padded 2 c.hour ++ ":" ++ padded 2 c.minute ++ ":" ++ padded 2 c.second ++ fraction c.nanosecond

end Clock

def Offset.text : Offset → String
  | .universal => "Z"
  | .minutes n =>
    (if n < 0 then "-" else "+") ++ padded 2 (n.natAbs / 60) ++ ":" ++ padded 2 (n.natAbs % 60)

namespace Moment

def text (m : Moment) : String :=
  (m.date.map Date.text).getD "" ++
    (if m.date.isSome && m.clock.isSome then "T" else "") ++
    (m.clock.map Clock.text).getD "" ++ (m.offset.map Offset.text).getD ""

def takeNumber? (digits : Nat) (cs : List Char) : Option (Nat × List Char) :=
  let taken := cs.take digits
  if taken.length = digits && taken.all Char.isDigit then
    some (Number.ofDigits taken, cs.drop digits)
  else none

def takeChar? (c : Char) : List Char → Option (List Char)
  | [] => none
  | d :: rest => if d = c then some rest else none

def takeDate? (cs : List Char) : Option (Date × List Char) := do
  let (year, cs) ← takeNumber? 4 cs
  let (month, cs) ← takeNumber? 2 (← takeChar? '-' cs)
  let (day, cs) ← takeNumber? 2 (← takeChar? '-' cs)
  let date : Date := ⟨year, month, day⟩
  if date.isValid then some (date, cs) else none

/-- Digits of a second behind the ninth are dropped. -/
def takeFraction? : List Char → Option (Nat × List Char)
  | '.' :: rest =>
    let digits := rest.takeWhile Char.isDigit
    if digits.isEmpty then none
    else
      let kept := digits.take 9
      some (Number.ofDigits kept * Nat.pow 10 (9 - kept.length), rest.dropWhile Char.isDigit)
  | cs => some (0, cs)

def takeClock? (cs : List Char) : Option (Clock × List Char) := do
  let (hour, cs) ← takeNumber? 2 cs
  let (minute, cs) ← takeNumber? 2 (← takeChar? ':' cs)
  let (second, cs) ← takeNumber? 2 (← takeChar? ':' cs)
  let (nanosecond, cs) ← takeFraction? cs
  let clock : Clock := ⟨hour, minute, second, nanosecond⟩
  if clock.isValid then some (clock, cs) else none

def readOffset? : List Char → Option (Option Offset)
  | [] => some none
  | ['Z'] => some (some .universal)
  | ['z'] => some (some .universal)
  | sign :: cs => do
    let (hours, cs) ← takeNumber? 2 cs
    let (minutes, cs) ← takeNumber? 2 (← takeChar? ':' cs)
    if !cs.isEmpty || hours > 23 || minutes > 59 then none
    else
      let n : Int := (60 * hours + minutes : Nat)
      if sign = '+' then some (some (.minutes n))
      else if sign = '-' then some (some (.minutes (-n)))
      else none

def read? (cs : List Char) : Option Moment :=
  match takeDate? cs with
  | some (date, []) => some { date }
  | some (date, mark :: rest) => do
    if mark ≠ 'T' && mark ≠ 't' && mark ≠ ' ' then none
    let (clock, rest) ← takeClock? rest
    return { date, clock, offset := ← readOffset? rest }
  | none =>
    match takeClock? cs with
    | some (clock, []) => some { clock }
    | _ => none

end Moment
end Blockwork.Toml
