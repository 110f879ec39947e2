import Blockwork.Text.Printable

/-! Texts between double quotes, with escapes for the characters that cannot stand there. -/

namespace Blockwork.Text

structure Quoting where
  letters : List (Char × Char)
  plain : Char → Bool
  byNumber : Nat → List Char

namespace Quoting

def char (q : Quoting) (c : Char) : List Char :=
  match q.letters.lookup c with
  | some letter => ['\\', letter]
  | none => if q.plain c then [c] else q.byNumber c.toNat

def chars (q : Quoting) (cs : List Char) : List Char := cs.flatMap q.char

def quote (q : Quoting) (s : String) : String :=
  String.ofList ('"' :: q.chars s.toList ++ ['"'])

end Quoting

private def hexadecimal (n : Nat) : List Char := Nat.toDigits 16 n

/-- Only what a JSON string must escape. -/
def json : Quoting where
  letters := [('"', '"'), ('\\', '\\'), ('\x08', 'b'), ('\x0c', 'f'), ('\n', 'n'), ('\r', 'r'),
    ('\t', 't')]
  plain := fun c => 32 ≤ c.toNat
  byNumber := fun n => ['\\', 'u', '0', '0', Nat.digitChar (n / 16), Nat.digitChar (n % 16)]

/-- Everything that would not show as itself in a message. -/
def visible : Quoting where
  letters := [('"', '"'), ('\\', '\\'), ('\x00', '0'), ('\n', 'n'), ('\r', 'r'), ('\t', 't')]
  plain := isPrintable
  byNumber := fun n => ['\\', 'u', '\x7b'] ++ hexadecimal n ++ ['\x7d']

end Blockwork.Text
