import Blockwork.Toml.Basic

/-! Reading the four forms of TOML strings. Each reader starts behind the opening quotes and gives
the text and what follows the closing ones. -/

namespace Blockwork.Toml

def isForbidden (c : Char) : Bool := (c.toNat < 32 && c ≠ '\t') || c.toNat = 127

def letterEscape? : Char → Option Char
  | 'b' => some '\x08'
  | 't' => some '\t'
  | 'n' => some '\n'
  | 'f' => some '\x0c'
  | 'r' => some '\r'
  | '"' => some '"'
  | '\\' => some '\\'
  | _ => none

def digitValue? (c : Char) : Option Nat :=
  let n := c.toNat
  if '0'.toNat ≤ n && n ≤ '9'.toNat then some (n - '0'.toNat)
  else if 'a'.toNat ≤ n && n ≤ 'f'.toNat then some (n - 'a'.toNat + 10)
  else if 'A'.toNat ≤ n && n ≤ 'F'.toNat then some (n - 'A'.toNat + 10)
  else none

def ofDigits? (base : Nat) (cs : List Char) : Option Nat :=
  cs.foldlM (fun n c => do
    let d ← digitValue? c
    if d < base then some (base * n + d) else none) 0

def ofCode? (digits : List Char) : Option Char := do
  let n ← ofDigits? 16 digits
  if n < 0xd800 || (0xe000 ≤ n && n < 0x110000) then some (Char.ofNat n) else none

abbrev Taken := Option (List Char × List Char)

def putFirst (c : Char) (rest : Taken) : Taken := rest.map fun (text, after) => (c :: text, after)

def takeBasic : List Char → Taken
  | [] => none
  | '"' :: rest => some ([], rest)
  | '\\' :: 'u' :: a :: b :: c :: d :: rest => do
    putFirst (← ofCode? [a, b, c, d]) (takeBasic rest)
  | '\\' :: 'U' :: a :: b :: c :: d :: e :: f :: g :: h :: rest => do
    putFirst (← ofCode? [a, b, c, d, e, f, g, h]) (takeBasic rest)
  | '\\' :: c :: rest => do putFirst (← letterEscape? c) (takeBasic rest)
  | c :: rest => if c = '\\' || isForbidden c then none else putFirst c (takeBasic rest)

def takeLiteral : List Char → Taken
  | [] => none
  | c :: rest =>
    if c = '\'' then some ([], rest)
    else if isForbidden c then none
    else putFirst c (takeLiteral rest)

/-- Where the reader of a block stands: in its text, behind a backslash at the end of a line, or in
the blanks and empty lines after it. -/
inductive BlockState where
  | text
  | lineEnd
  | blanks

def takeBasicBlock : BlockState → List Char → Taken
  | _, [] => none
  | .lineEnd, '\r' :: '\n' :: rest => takeBasicBlock .blanks rest
  | .lineEnd, c :: rest =>
    if c = '\n' then takeBasicBlock .blanks rest
    else if c = ' ' || c = '\t' then takeBasicBlock .lineEnd rest
    else none
  | _, '"' :: '"' :: '"' :: '"' :: '"' :: rest => some (['"', '"'], rest)
  | _, '"' :: '"' :: '"' :: '"' :: rest => some (['"'], rest)
  | _, '"' :: '"' :: '"' :: rest => some ([], rest)
  | .text, '\r' :: '\n' :: rest => putFirst '\n' (takeBasicBlock .text rest)
  | .blanks, '\r' :: '\n' :: rest => takeBasicBlock .blanks rest
  | _, '\\' :: 'u' :: a :: b :: c :: d :: rest => do
    putFirst (← ofCode? [a, b, c, d]) (takeBasicBlock .text rest)
  | _, '\\' :: 'U' :: a :: b :: c :: d :: e :: f :: g :: h :: rest => do
    putFirst (← ofCode? [a, b, c, d, e, f, g, h]) (takeBasicBlock .text rest)
  | _, '\\' :: '\r' :: '\n' :: rest => takeBasicBlock .blanks rest
  | _, '\\' :: c :: rest =>
    if c = '\n' then takeBasicBlock .blanks rest
    else if c = ' ' || c = '\t' then takeBasicBlock .lineEnd rest
    else do putFirst (← letterEscape? c) (takeBasicBlock .text rest)
  | .blanks, c :: rest =>
    if c = ' ' || c = '\t' || c = '\n' then takeBasicBlock .blanks rest
    else if c = '\\' || isForbidden c then none
    else putFirst c (takeBasicBlock .text rest)
  | .text, c :: rest =>
    if c = '\n' then putFirst c (takeBasicBlock .text rest)
    else if c = '\\' || isForbidden c then none
    else putFirst c (takeBasicBlock .text rest)

def takeLiteralBlock : List Char → Taken
  | [] => none
  | '\'' :: '\'' :: '\'' :: '\'' :: '\'' :: rest => some (['\'', '\''], rest)
  | '\'' :: '\'' :: '\'' :: '\'' :: rest => some (['\''], rest)
  | '\'' :: '\'' :: '\'' :: rest => some ([], rest)
  | '\r' :: '\n' :: rest => putFirst '\n' (takeLiteralBlock rest)
  | c :: rest =>
    if isForbidden c && c ≠ '\n' then none else putFirst c (takeLiteralBlock rest)

/-- A line feed right behind the opening of a block is not part of its text. -/
def dropLineFeed : List Char → List Char
  | '\n' :: rest => rest
  | '\r' :: '\n' :: rest => rest
  | cs => cs

def takeLine? : List Char → Option (Taken)
  | '"' :: rest => some (takeBasic rest)
  | '\'' :: rest => some (takeLiteral rest)
  | _ => none

/-- A string of any form, from its opening quotes; `none` outside if there are no quotes. -/
def takeString? : List Char → Option (Taken)
  | '"' :: '"' :: '"' :: rest => some (takeBasicBlock .text (dropLineFeed rest))
  | '\'' :: '\'' :: '\'' :: rest => some (takeLiteralBlock (dropLineFeed rest))
  | cs => takeLine? cs

end Blockwork.Toml
