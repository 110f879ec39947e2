import Blockwork.Files
import Blockwork.Graph.Read

/-! Loading with positions: a fault is reported by line and column, and by the span of the source
that a report underlines. -/

namespace Blockwork

open Json

/-- A line, counted from one, and a number of bytes on it. -/
structure Place where
  line : Nat
  column : Nat
deriving Repr, DecidableEq

namespace Place

def advance (p : Place) : List Char → Nat → Place
  | [], _ => p
  | c :: rest, bytes =>
    if bytes < c.utf8Size then { p with column := p.column + bytes }
    else if c = '\n' then advance ⟨p.line + 1, 0⟩ rest (bytes - c.utf8Size)
    else advance { p with column := p.column + c.utf8Size } rest (bytes - c.utf8Size)

def ofOffset (source : String) (bytes : Nat) : Place := advance ⟨1, 0⟩ source.toList bytes

def linesSize (lines : Nat) : List Char → Nat
  | [] => 0
  | c :: rest =>
    if lines = 0 then 0
    else c.utf8Size + linesSize (if c = '\n' then lines - 1 else lines) rest

/-- The byte that a place speaks of: the one before it on its line, or the first of the line. Without
a line it is the first of all. -/
def offset (p : Place) (source : String) : Nat :=
  if p.line = 0 then 0
  else min (linesSize (p.line - 1) source.toList + (p.column - 1)) source.utf8ByteSize

end Place

structure Span where
  start : Nat
  stop : Nat
deriving Repr, DecidableEq

inductive LoadError where
  | malformed (cause : Cause) (place : Place) (span : Span) (file : Nat)
  | unreadable (path : String) (reason : FileError)

namespace LoadError

/-- Locates a fault in its source. The span covers one byte, or none at the end. -/
def ofFault (source : String) (file : Nat) (f : Fault) : LoadError :=
  let place := Place.ofOffset source f.offset
  let start := place.offset source
  .malformed f.cause place ⟨start, max start (min (start + 1) source.utf8ByteSize)⟩ file

def message : LoadError → String
  | .malformed cause place _ _ =>
    (if cause.isSyntax then "invalid JSON" else "malformed graph") ++ " at line " ++
      Nat.repr place.line ++ ", column " ++ Nat.repr place.column ++ ": " ++ cause.message
  | .unreadable path reason => "cannot read `" ++ path ++ "`: " ++ reason.text

end LoadError

def Graph.load (source : String) (file : Nat) : Except LoadError Graph :=
  match Graph.read source with
  | .ok graph => .ok graph
  | .error f => .error (.ofFault source file f)

def Graph.loadFile (files : Files) (path : String) : Except LoadError Graph :=
  match files.readText path with
  | .ok source => Graph.load source 0
  | .error reason => .error (.unreadable path reason)

end Blockwork
