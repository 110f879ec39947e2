import Blockwork.Graph.Load
import Blockwork.Text.Lines
import Blockwork.Text.Units
import Blockwork.Text.Width

/-! Diagnostics: a message above the line of source that it speaks of, with carets below the
bytes of a span. A span covers at most one byte. -/

namespace Blockwork

structure SourceLine where
  number : Nat
  start : Nat
  chars : List Char

namespace SourceLine

def search (byte number start : Nat) : List (List Char) → SourceLine
  | [] => ⟨number, start, []⟩
  | [line] => ⟨number, start, line⟩
  | line :: rest =>
    if byte < start + Text.byteCount line then ⟨number, start, line⟩
    else search byte (number + 1) (start + Text.byteCount line) rest

def ofByte (source : String) (byte : Nat) : SourceLine :=
  search byte 1 0 (Text.fullLines source.toList)

def charsBefore (byte start : Nat) : List Char → Nat
  | [] => 0
  | c :: rest =>
    if start + c.utf8Size ≤ byte then charsBefore byte (start + c.utf8Size) rest + 1 else 0

def column (l : SourceLine) (byte : Nat) : Nat := charsBefore byte l.start l.chars + 1

/-- The characters that are shown: neither line ends nor zero characters at the end. -/
def shown (l : SourceLine) : List Char :=
  (l.chars.reverse.dropWhile fun c => c = '\n' || c = '\r' || c = '\x00').reverse

end SourceLine

structure Cell where
  byte : Nat
  char : Char
  width : Nat

namespace Cell

/-- Tabs go on to the next multiple of four columns. -/
def ofChars (byte column : Nat) : List Char → List Cell
  | [] => []
  | c :: rest =>
    let width := if c = '\t' then 4 - column % 4 else Text.columns c
    ⟨byte, c, width⟩ :: ofChars (byte + c.utf8Size) (column + width) rest

def stop (c : Cell) : Nat := c.byte + c.char.utf8Size

def text (c : Cell) : List Char :=
  if c.char = '\t' then List.replicate c.width ' ' else [c.char]

end Cell

structure Diagnostic where
  message : String
  file : String
  source : String
  span : Span

namespace Diagnostic

def cells (line : SourceLine) : List Cell := Cell.ofChars line.start 0 line.shown

def sourceText (line : SourceLine) : String := String.ofList ((cells line).flatMap Cell.text)

/-- Carets below the cells that meet the span, and blanks before them. The place behind the last
cell counts as one more. -/
def underline (line : SourceLine) (span : Span) : String :=
  let shown := cells line
  let behind : Cell := ⟨line.start + Text.byteCount line.shown, '\x00', 1⟩
  let stop := max span.stop (span.start + 1)
  let mark (c : Cell) : List Char :=
    if max c.byte span.start < min c.stop stop then List.replicate c.width '^'
    else if c.byte < stop then List.replicate c.width ' '
    else []
  String.ofList ((shown ++ [behind]).flatMap mark)

def padLeft (width : Nat) (s : String) : String :=
  String.ofList (List.replicate (width - s.length) ' ') ++ s

/-- A span that holds a line feed is one on an empty line, and reaches to the next line. -/
def render (d : Diagnostic) : String :=
  let first := SourceLine.ofByte d.source d.span.start
  let last := SourceLine.ofByte d.source d.span.stop
  let margin := (Nat.repr last.number).length
  let numbered (l : SourceLine) := padLeft margin (Nat.repr l.number) ++ " │ "
  let unnumbered := padLeft margin "" ++ " │"
  let body :=
    if first.number = last.number then
      [unnumbered,
        numbered first ++ sourceText first,
        unnumbered ++ " " ++ underline first d.span]
    else
      [unnumbered ++ "  ",
        numbered first ++ "╭ " ++ sourceText first,
        numbered last ++ "│ " ++ sourceText last,
        unnumbered ++ " ╰^"]
  Text.unlines (
    ("error: " ++ d.message) ::
    (padLeft margin "" ++ " ┌─ " ++ d.file ++ ":" ++ Nat.repr first.number ++ ":" ++
      Nat.repr (first.column d.span.start)) ::
    body ++ [""])

end Diagnostic
end Blockwork
