import Blockwork.Json.Fault
import Blockwork.Text.Units

/-! The lexemes of a JSON text with their byte offsets. A text may be read for its value or only
to skip it: skipping accepts unpaired surrogates and numbers of any size, so a lexeme tells for
either way what is wrong with it. Nothing is read beyond a lexeme that is broken either way. -/

namespace Blockwork.Json

inductive Lexeme where
  | openArray
  | closeArray
  | openObject
  | closeObject
  | comma
  | colon
  | scalar (value : Except Fault Json)
  | string (content : Except Fault String)
  /-- Ill-formed when read and when skipped; `quoted` if it begins with a quote. -/
  | broken (quoted : Bool) (read skipped : Fault)

structure Token where
  start : Nat
  stop : Nat
  lexeme : Lexeme

def isSpace (c : Char) : Bool := c = ' ' || c = '\n' || c = '\t' || c = '\r'

/-! ### Strings -/

inductive StringScan where
  | closed (content : Except Fault (List Char)) (stop : Nat) (rest : List Char)
  | broken (read skipped : Fault)

namespace StringScan

def push (c : Char) : StringScan → StringScan
  | .closed content stop rest => .closed (content.map (c :: ·)) stop rest
  | .broken read skipped => .broken read skipped

/-- A fault that only reading meets, before all that follow. -/
def fail (f : Fault) : StringScan → StringScan
  | .closed _ stop rest => .closed (.error f) stop rest
  | .broken _ skipped => .broken f skipped

def unpaired (high : Option Nat) (f : Fault) (s : StringScan) : StringScan :=
  if high.isSome then s.fail f else s

def rest : StringScan → List Char
  | .closed _ _ rest => rest
  | .broken _ _ => []

@[simp] theorem rest_push (c : Char) (s : StringScan) : (s.push c).rest = s.rest := by
  cases s <;> rfl

@[simp] theorem rest_fail (f : Fault) (s : StringScan) : (s.fail f).rest = s.rest := by
  cases s <;> rfl

@[simp] theorem rest_unpaired (high : Option Nat) (f : Fault) (s : StringScan) :
    (s.unpaired high f).rest = s.rest := by
  simp only [unpaired]
  split <;> simp

@[simp] theorem rest_closed (content : Except Fault (List Char)) (stop : Nat) (rest : List Char) :
    (closed content stop rest).rest = rest := rfl

@[simp] theorem rest_broken (read skipped : Fault) : (broken read skipped).rest = [] := rfl

end StringScan

def hexDigit? (c : Char) : Option Nat :=
  if c.isDigit then some (c.toNat - '0'.toNat)
  else if 'a' ≤ c && c ≤ 'f' then some (c.toNat - 'a'.toNat + 10)
  else if 'A' ≤ c && c ≤ 'F' then some (c.toNat - 'A'.toNat + 10)
  else none

def hexUnit? (a b c d : Char) : Option Nat := do
  return (((← hexDigit? a) * 16 + (← hexDigit? b)) * 16 + (← hexDigit? c)) * 16 + (← hexDigit? d)

/-- The fault of a unit escape that lacks its four digits, which would begin at `offset`. -/
def hexFault (offset : Nat) (rest : List Char) : Fault :=
  if Text.byteCount rest < 4 then ⟨.endInString, offset + Text.byteCount rest⟩
  else ⟨.badEscape, offset + 4⟩

def escapeLetter? : Char → Option Char
  | '"' => some '"'
  | '\\' => some '\\'
  | '/' => some '/'
  | 'b' => some '\x08'
  | 'f' => some '\x0c'
  | 'n' => some '\n'
  | 'r' => some '\r'
  | 't' => some '\t'
  | _ => none

def isHighSurrogate (n : Nat) : Bool := 0xD800 ≤ n && n ≤ 0xDBFF

def isLowSurrogate (n : Nat) : Bool := 0xDC00 ≤ n && n ≤ 0xDFFF

def pairChar (high low : Nat) : Char :=
  Char.ofNat (0x10000 + (high - 0xD800) * 0x400 + (low - 0xDC00))

/-- Scans from behind the opening quote, or from behind the escape of a high surrogate, which
must be followed by that of a low one. -/
def scanString (high : Option Nat) (offset : Nat) : List Char → StringScan
  | [] => .broken ⟨.endInString, offset⟩ ⟨.endInString, offset⟩
  | '"' :: rest =>
    (StringScan.closed (.ok []) (offset + 1) rest).unpaired high ⟨.endOfSurrogatePair, offset + 1⟩
  | ['\\'] => .broken ⟨.endInString, offset + 1⟩ ⟨.endInString, offset + 1⟩
  | '\\' :: 'u' :: a :: b :: c :: d :: rest =>
    match hexUnit? a b c d with
    | none => .broken ⟨.badEscape, offset + 6⟩ ⟨.badEscape, offset + 6⟩
    | some unit =>
      if isLowSurrogate unit then
        match high with
        | some high => (scanString none (offset + 6) rest).push (pairChar high unit)
        | none => (scanString none (offset + 6) rest).fail ⟨.loneSurrogate, offset + 6⟩
      else if isHighSurrogate unit then
        (scanString (some unit) (offset + 6) rest).unpaired high ⟨.loneSurrogate, offset + 6⟩
      else
        ((scanString none (offset + 6) rest).push (Char.ofNat unit)).unpaired high
          ⟨.loneSurrogate, offset + 6⟩
  | '\\' :: c :: rest =>
    if c = 'u' then .broken (hexFault (offset + 2) rest) (hexFault (offset + 2) rest)
    else
      (match escapeLetter? c with
        | some letter => (scanString none (offset + 2) rest).push letter
        | none => .broken ⟨.badEscape, offset + 2⟩ ⟨.badEscape, offset + 2⟩).unpaired high
          ⟨.endOfSurrogatePair, offset + 2⟩
  | c :: rest =>
    (if c.toNat < 32 then .broken ⟨.controlCharacter, offset + 1⟩ ⟨.controlCharacter, offset⟩
      else (scanString none (offset + c.utf8Size) rest).push c).unpaired high
        ⟨.endOfSurrogatePair, offset + 1⟩

theorem length_rest_scanString (high : Option Nat) (offset : Nat) (cs : List Char) :
    (scanString high offset cs).rest.length ≤ cs.length := by
  fun_induction scanString high offset cs
  case case10 | case11 =>
    rw [StringScan.rest_unpaired]
    split <;> simp
    omega
  all_goals (simp; try omega)

/-! ### Numbers -/

def significandLimit : Nat := Nat.pow 2 64 - 1

/-- Appends digits while the significand stays within the limit. Gives the digits left over. -/
def takeDigits (significand : Nat) : List Char → Nat × List Char
  | [] => (significand, [])
  | d :: ds =>
    let next := 10 * significand + (d.toNat - '0'.toNat)
    if next ≤ significandLimit then takeDigits next ds else (significand, d :: ds)

def divideByPower (x : Float) (power : Nat) : Float :=
  if power ≤ 308 then x / Float.ofScientific 1 false power
  else if x == 0 then x
  else divideByPower (x / Float.ofScientific 1 false 308) (power - 308)
termination_by power
decreasing_by omega

/-- The double computed from a significand and a power of ten by one rounded product or quotient;
nothing if it is infinite. -/
def scaled? (significand : Nat) (exponent : Int) : Option Float :=
  let x := Float.ofNat significand
  if exponent < 0 then some (divideByPower x exponent.natAbs)
  else if exponent.natAbs ≤ 308 then
    let product := x * Float.ofScientific 1 false exponent.natAbs
    if product.isInf then none else some product
  else if x == 0 then some x
  else none

structure NumberParts where
  negative : Bool
  whole : List Char
  fraction : List Char
  exponentNegative : Bool
  exponent : List Char

namespace NumberParts

def exponentLimit : Nat := Nat.pow 2 31 - 1

/-- How many digits of the exponent there are up to the first that takes it over the limit. -/
def exponentOverflow? (value count : Nat) : List Char → Option Nat
  | [] => none
  | d :: ds =>
    let next := 10 * value + (d.toNat - '0'.toNat)
    if next ≤ exponentLimit then exponentOverflow? next (count + 1) ds else some (count + 1)

/-- The value of a number that ends at `stop`. Whole numbers of 64 bits stay whole; a negative
zero, and all else, is a double. -/
def value (p : NumberParts) (stop : Nat) : Except Fault Json :=
  let (significand, dropped) := takeDigits 0 p.whole
  if p.fraction.isEmpty && p.exponent.isEmpty && dropped.isEmpty && !p.negative then
    .ok (.int significand)
  else if p.fraction.isEmpty && p.exponent.isEmpty && dropped.isEmpty &&
      significand ≠ 0 && significand ≤ Nat.pow 2 63 then
    .ok (.int (-significand))
  else
    let (significand, unused) := takeDigits significand p.fraction
    let shift : Int := dropped.length - (p.fraction.length - unused.length : Nat)
    let written : Int := p.exponent.foldl (fun n d => 10 * n + (d.toNat - '0'.toNat)) 0
    match exponentOverflow? 0 0 p.exponent with
    | some count =>
      if significand ≠ 0 && !p.exponentNegative then
        .error ⟨.outOfRange, stop - p.exponent.length + count⟩
      else .ok (.float (if p.negative then -0.0 else 0.0))
    | none =>
      match scaled? significand (if p.exponentNegative then shift - written else shift + written) with
      | some x => .ok (.float (if p.negative then -x else x))
      | none => .error ⟨.outOfRange, stop⟩

end NumberParts

inductive NumberScan where
  | closed (value : Except Fault Json) (stop : Nat) (rest : List Char)
  | broken (read skipped : Fault)

def NumberScan.rest : NumberScan → List Char
  | .closed _ _ rest => rest
  | .broken _ _ => []

/-- The faults where a digit should stand at `offset`: the text ends there, or another character
is found, which counts as read. -/
def digitFaults (offset : Nat) : List Char → NumberScan
  | [] => .broken ⟨.endInValue, offset⟩ ⟨.badNumber, offset⟩
  | _ => .broken ⟨.badNumber, offset + 1⟩ ⟨.badNumber, offset + 1⟩

def scanExponentDigits (p : NumberParts) (negative : Bool) (offset : Nat) (cs : List Char) :
    NumberScan :=
  let digits := cs.takeWhile Char.isDigit
  let stop := offset + digits.length
  if digits.isEmpty then digitFaults offset cs
  else .closed ({ p with exponentNegative := negative, exponent := digits }.value stop) stop
    (cs.dropWhile Char.isDigit)

def scanExponent (p : NumberParts) (offset : Nat) : List Char → NumberScan
  | 'e' :: '+' :: rest | 'E' :: '+' :: rest => scanExponentDigits p false (offset + 2) rest
  | 'e' :: '-' :: rest | 'E' :: '-' :: rest => scanExponentDigits p true (offset + 2) rest
  | 'e' :: rest | 'E' :: rest => scanExponentDigits p false (offset + 1) rest
  | rest => .closed (p.value offset) offset rest

def scanFraction (p : NumberParts) (offset : Nat) (cs : List Char) : NumberScan :=
  match cs with
  | '.' :: rest =>
    let digits := rest.takeWhile Char.isDigit
    if digits.isEmpty then digitFaults (offset + 1) rest
    else scanExponent { p with fraction := digits } (offset + 1 + digits.length)
      (rest.dropWhile Char.isDigit)
  | _ => scanExponent p offset cs

def scanWhole (negative : Bool) (offset : Nat) (cs : List Char) : NumberScan :=
  let digits := cs.takeWhile Char.isDigit
  if digits.isEmpty then digitFaults offset cs
  else if digits.head? = some '0' && digits.length > 1 then
    .broken ⟨.badNumber, offset + 2⟩ ⟨.badNumber, offset + 2⟩
  else scanFraction ⟨negative, digits, [], false, []⟩ (offset + digits.length)
    (cs.dropWhile Char.isDigit)

theorem length_dropWhile_le (f : Char → Bool) (cs : List Char) :
    (cs.dropWhile f).length ≤ cs.length :=
  (List.dropWhile_sublist f).length_le

@[simp] theorem rest_digitFaults (offset : Nat) (cs : List Char) :
    (digitFaults offset cs).rest = [] := by
  cases cs <;> rfl

theorem length_rest_scanExponentDigits (p : NumberParts) (negative : Bool) (offset : Nat)
    (cs : List Char) : (scanExponentDigits p negative offset cs).rest.length ≤ cs.length := by
  unfold scanExponentDigits
  dsimp only
  split
  · simp
  · exact length_dropWhile_le Char.isDigit cs

theorem length_rest_scanExponent (p : NumberParts) (offset : Nat) (cs : List Char) :
    (scanExponent p offset cs).rest.length ≤ cs.length := by
  unfold scanExponent
  split
  case h_7 => exact Nat.le_refl _
  all_goals
    refine Nat.le_trans (length_rest_scanExponentDigits ..) ?_
    simp only [List.length_cons]
    omega

theorem length_rest_scanFraction (p : NumberParts) (offset : Nat) (cs : List Char) :
    (scanFraction p offset cs).rest.length ≤ cs.length := by
  unfold scanFraction
  split
  · rename_i rest
    dsimp only
    split
    · simp
    · exact Nat.le_trans (length_rest_scanExponent ..)
        (Nat.le_succ_of_le (length_dropWhile_le Char.isDigit rest))
  · exact length_rest_scanExponent ..

theorem length_rest_scanWhole (negative : Bool) (offset : Nat) (cs : List Char) :
    (scanWhole negative offset cs).rest.length ≤ cs.length := by
  unfold scanWhole
  dsimp only
  split
  · simp
  · split
    · simp [NumberScan.rest]
    · exact Nat.le_trans (length_rest_scanFraction ..) (length_dropWhile_le Char.isDigit cs)

theorem length_rest_scanWhole_cons (negative : Bool) (offset : Nat) {c : Char}
    (h : c.isDigit = true) (cs : List Char) :
    (scanWhole negative offset (c :: cs)).rest.length ≤ cs.length := by
  unfold scanWhole
  dsimp only
  split
  · simp
  · split
    · simp [NumberScan.rest]
    · refine Nat.le_trans (length_rest_scanFraction ..) ?_
      simpa [List.dropWhile_cons, h] using length_dropWhile_le Char.isDigit cs

/-! ### All lexemes -/

def scanWord (offset : Nat) : List Char → List Char → Except Fault (List Char)
  | [], rest => .ok rest
  | _ :: _, [] => .error ⟨.endInValue, offset⟩
  | w :: ws, c :: cs => if c = w then scanWord (offset + 1) ws cs else .error ⟨.noWord, offset + 1⟩

structure TokenScan where
  token : Token
  rest : List Char

namespace TokenScan

def ofMark (start : Nat) (lexeme : Lexeme) (rest : List Char) : TokenScan :=
  ⟨⟨start, start + 1, lexeme⟩, rest⟩

def ofWord (start : Nat) (letters : List Char) (value : Json) (rest : List Char) : TokenScan :=
  match scanWord (start + 1) letters rest with
  | .ok rest => ⟨⟨start, start + 1 + letters.length, .scalar (.ok value)⟩, rest⟩
  | .error f => ⟨⟨start, start, .broken false f f⟩, []⟩

def ofNumber (start : Nat) : NumberScan → TokenScan
  | .closed value stop rest => ⟨⟨start, stop, .scalar value⟩, rest⟩
  | .broken read skipped => ⟨⟨start, start, .broken false read skipped⟩, []⟩

def ofString (start : Nat) : StringScan → TokenScan
  | .closed content stop rest => ⟨⟨start, stop, .string (content.map String.ofList)⟩, rest⟩
  | .broken read skipped => ⟨⟨start, start, .broken true read skipped⟩, []⟩

def read (start : Nat) (c : Char) (rest : List Char) : TokenScan :=
  match c with
  | '[' => ofMark start .openArray rest
  | ']' => ofMark start .closeArray rest
  | '\x7b' => ofMark start .openObject rest
  | '\x7d' => ofMark start .closeObject rest
  | ',' => ofMark start .comma rest
  | ':' => ofMark start .colon rest
  | 'n' => ofWord start ['u', 'l', 'l'] .null rest
  | 't' => ofWord start ['r', 'u', 'e'] (.bool true) rest
  | 'f' => ofWord start ['a', 'l', 's', 'e'] (.bool false) rest
  | '"' => ofString start (scanString none (start + 1) rest)
  | '-' => ofNumber start (scanWhole true (start + 1) rest)
  | _ =>
    if c.isDigit then ofNumber start (scanWhole false start (c :: rest))
    else ⟨⟨start, start, .broken false ⟨.noValue, start + 1⟩ ⟨.noValue, start + 1⟩⟩, []⟩

theorem length_scanWord {offset : Nat} {word cs rest : List Char}
    (h : scanWord offset word cs = .ok rest) : rest.length ≤ cs.length := by
  fun_induction scanWord offset word cs with
  | case1 => cases h; exact Nat.le_refl _
  | case2 => cases h
  | case3 offset w ws cs ih => exact Nat.le_succ_of_le (ih h)
  | case4 => cases h

theorem length_rest_ofWord (start : Nat) (letters : List Char) (value : Json)
    (rest : List Char) : (ofWord start letters value rest).rest.length ≤ rest.length := by
  unfold ofWord
  split
  · exact length_scanWord ‹_›
  · exact Nat.zero_le _

theorem rest_ofNumber (start : Nat) (s : NumberScan) : (ofNumber start s).rest = s.rest := by
  cases s <;> rfl

theorem rest_ofString (start : Nat) (s : StringScan) : (ofString start s).rest = s.rest := by
  cases s <;> rfl

theorem length_rest_read (start : Nat) (c : Char) (rest : List Char) :
    (read start c rest).rest.length ≤ rest.length := by
  unfold read
  split
  case h_7 | h_8 | h_9 => exact length_rest_ofWord ..
  case h_10 => rw [rest_ofString]; exact length_rest_scanString ..
  case h_11 => rw [rest_ofNumber]; exact length_rest_scanWhole ..
  case h_12 =>
    split
    · rw [rest_ofNumber]; exact length_rest_scanWhole_cons _ _ ‹_› _
    · exact Nat.zero_le _
  all_goals exact Nat.le_refl _

end TokenScan

def lex (offset : Nat) : List Char → List Token
  | [] => []
  | c :: rest =>
    if isSpace c then lex (offset + 1) rest
    else
      let scan := TokenScan.read offset c rest
      scan.token :: lex scan.token.stop scan.rest
termination_by cs => cs.length
decreasing_by
  · simp
  · exact Nat.lt_succ_of_le (TokenScan.length_rest_read ..)

end Blockwork.Json
