import Blockwork.Toml.Text
import Blockwork.Toml.Tree

/-! Reading TOML values: strings, words, arrays and inline tables. -/

namespace Blockwork.Toml

/-! ### Words: numbers, truth values and moments -/

def isWordChar (c : Char) : Bool := isBareChar c || c = '+' || c = '.' || c = ':'

/-- Digits of a base without the underscores, each of which stands between two digits. -/
def plainDigits? (base : Nat) (cs : List Char) : Option (List Char) :=
  go false cs
where
  go (afterDigit : Bool) : List Char → Option (List Char)
    | [] => if afterDigit then some [] else none
    | c :: rest =>
      if c = '_' then if afterDigit then go false rest else none
      else if (digitValue? c).any (· < base) then (go true rest).map (c :: ·)
      else none

def ofBase? (base : Nat) (cs : List Char) : Option Toml := do
  let n ← ofDigits? base (← plainDigits? base cs)
  if isInteger n then some (.integer n) else none

/-- Whole digits do not start with a zero in front of others. -/
def wholeDigits? (cs : List Char) : Option (List Char) := do
  let digits ← plainDigits? 10 cs
  if digits.head? = some '0' && digits.length ≠ 1 then none else some digits

def readInteger? (cs : List Char) : Option Toml := do
  let (negative, rest) := Number.takeSign cs
  let n := Number.ofDigits (← wholeDigits? rest)
  let n : Int := if negative then -n else n
  if isInteger n then some (.integer n) else none

def isExponentMark (c : Char) : Bool := c = 'e' || c = 'E'

def fractionDigits? : List Char → Option (List Char)
  | '.' :: rest => plainDigits? 10 rest
  | [] => some []
  | _ => none

def exponentText? : List Char → Option (List Char)
  | [] => some []
  | _ :: rest => do
    let (negative, digits) := Number.takeSign rest
    return 'e' :: (if negative then ['-'] else []) ++ (← plainDigits? 10 digits)

def readDecimal? (cs : List Char) : Option Toml := do
  let (negative, rest) := Number.takeSign cs
  let mantissa := rest.takeWhile fun c => !isExponentMark c
  let whole ← wholeDigits? (mantissa.takeWhile (· ≠ '.'))
  let fraction ← fractionDigits? (mantissa.dropWhile (· ≠ '.'))
  let exponent ← exponentText? (rest.dropWhile fun c => !isExponentMark c)
  let literal ← Number.read? (String.ofList
    ((if negative then ['-'] else []) ++ whole ++
      (if fraction.isEmpty then [] else '.' :: fraction) ++ exponent))
  if (fraction.isEmpty && exponent.isEmpty) || literal.value == 1.0 / 0.0 then none
  else some (.float literal.value)

def readSpecial? (cs : List Char) : Option Toml :=
  let (negative, rest) := Number.takeSign cs
  if rest = ['i', 'n', 'f'] then some (.float (if negative then -1.0 / 0.0 else 1.0 / 0.0))
  else if rest = ['n', 'a', 'n'] then some (.float (0.0 / 0.0))
  else none

def readWord? (cs : List Char) : Option Toml :=
  match cs with
  | ['t', 'r', 'u', 'e'] => some (.boolean true)
  | ['f', 'a', 'l', 's', 'e'] => some (.boolean false)
  | '0' :: 'x' :: rest => ofBase? 16 rest
  | '0' :: 'o' :: rest => ofBase? 8 rest
  | '0' :: 'b' :: rest => ofBase? 2 rest
  | _ =>
    readInteger? cs <|> readDecimal? cs <|> readSpecial? cs <|> (Moment.read? cs).map .moment

/-- A word, or two words that are a date and a time. -/
def takeWord (cs : List Char) : List Char × List Char :=
  let word := cs.takeWhile isWordChar
  let rest := cs.dropWhile isWordChar
  match rest with
  | ' ' :: later =>
    let second := later.takeWhile isWordChar
    if (Moment.takeDate? word).any (·.2.isEmpty) && (Moment.takeClock? second).isSome then
      (word ++ ' ' :: second, later.dropWhile isWordChar)
    else (word, rest)
  | _ => (word, rest)

/-! ### Keys -/

/-- Keys have fewer parts than this, and arrays and tables in a line fewer levels. -/
def depthLimit : Nat := 80

def skipBlanks (cs : List Char) : List Char := cs.dropWhile fun c => c = ' ' || c = '\t'

def takeName? (cs : List Char) : Option (String × List Char) :=
  match takeLine? cs with
  | some taken => taken.map fun (text, rest) => (String.ofList text, rest)
  | none =>
    let name := cs.takeWhile isBareChar
    if name.isEmpty then none
    else some (String.ofList name, cs.dropWhile isBareChar)

def takeNames? : Nat → List Char → Option (List String × List Char)
  | 0, _ => none
  | fuel + 1, cs =>
    match skipBlanks cs with
    | '.' :: rest => do
      let (name, rest) ← takeName? (skipBlanks rest)
      let (names, rest) ← takeNames? fuel rest
      return (name :: names, rest)
    | rest => some ([], rest)

def takeKey? (cs : List Char) : Option (String × List String × List Char) := do
  let (name, rest) ← takeName? cs
  let (names, rest) ← takeNames? (rest.length + 1) rest
  if names.length + 1 < depthLimit then some (name, names, rest) else none

/-! ### Values -/

def skipSpace (comment : Bool) : List Char → List Char
  | [] => []
  | '\r' :: '\n' :: rest => skipSpace false rest
  | c :: rest =>
    if c = '\n' then skipSpace false rest
    else if comment then if isForbidden c then c :: rest else skipSpace true rest
    else if c = ' ' || c = '\t' then skipSpace false rest
    else if c = '#' then skipSpace true rest
    else c :: rest

mutual

/-- The depth is the number of arrays and tables around the value. Each step into one of them and each
step to the next item costs one unit of fuel. -/
def takeValue? (fuel depth : Nat) (cs : List Char) : Option (Toml × List Char) :=
  match fuel with
  | 0 => none
  | fuel + 1 =>
    match takeString? cs with
    | some taken => taken.map fun (text, rest) => (.string (String.ofList text), rest)
    | none =>
      match cs with
      | '[' :: rest =>
        if depth + 1 < depthLimit then do
          let (items, rest) ← takeItems? fuel (depth + 1) (skipSpace false rest)
          return (.array items, rest)
        else none
      | '\x7b' :: rest =>
        if depth + 1 < depthLimit then
          match skipBlanks rest with
          | '\x7d' :: rest => some (.table [], rest)
          | rest => do
            let (members, rest) ← takeMembers? fuel (depth + 1) [] rest
            return (.table members.table, rest)
        else none
      | _ =>
        let (word, rest) := takeWord cs
        (readWord? word).map fun v => (v, rest)

def takeItems? (fuel depth : Nat) (cs : List Char) : Option (List Toml × List Char) :=
  match fuel with
  | 0 => none
  | fuel + 1 =>
    match cs with
    | ']' :: rest => some ([], rest)
    | _ => do
      let (item, rest) ← takeValue? fuel depth cs
      match skipSpace false rest with
      | ']' :: rest => return ([item], rest)
      | ',' :: rest =>
        let (items, rest) ← takeItems? fuel depth (skipSpace false rest)
        return (item :: items, rest)
      | _ => none

def takeMembers? (fuel depth : Nat) (before : Node.Members) (cs : List Char) :
    Option (Node.Members × List Char) :=
  match fuel with
  | 0 => none
  | fuel + 1 => do
    let (name, names, rest) ← takeKey? (skipBlanks cs)
    match rest with
    | '=' :: rest =>
      let (value, rest) ← takeValue? fuel depth (skipBlanks rest)
      let members ← before.define name names value
      match skipBlanks rest with
      | '\x7d' :: rest => return (members, rest)
      | ',' :: rest => takeMembers? fuel depth members rest
      | _ => none
    | _ => none

end
end Blockwork.Toml
