import Blockwork.Toml.Read

/-! TOML documents: lines that give a value to a key or open a table, put together to one table. -/

namespace Blockwork.Toml

inductive Statement where
  | define (name : String) (names : List String) (v : Toml)
  | openTable (path : List String) (name : String)
  | openTables (path : List String) (name : String)

structure Draft where
  root : Node.Members := []
  path : List String := []

namespace Draft

open Node.Members

def add (d : Draft) : Statement → Option Draft
  | .define name names v => do
    return { d with root := ← underHeader (define name names v) d.path d.root }
  | .openTable path name => do
    return ⟨← underHeader (openTable name) path d.root, path ++ [name]⟩
  | .openTables path name => do
    return ⟨← underHeader (openTables name) path d.root, path ++ [name]⟩

end Draft

def takeHeader? (cs : List Char) : Option (List String × String × List Char) := do
  let (name, names, rest) ← takeKey? (skipBlanks cs)
  match skipBlanks rest with
  | ']' :: rest =>
    let path := name :: names
    return (path.dropLast, path.getLastD name, rest)
  | _ => none

def takeStatement? : List Char → Option (Statement × List Char)
  | '[' :: '[' :: rest => do
    match ← takeHeader? rest with
    | (path, name, ']' :: rest) => return (.openTables path name, rest)
    | _ => none
  | '[' :: rest => do
    let (path, name, rest) ← takeHeader? rest
    return (.openTable path name, rest)
  | cs => do
    let (name, names, rest) ← takeKey? cs
    match rest with
    | '=' :: rest =>
      let rest := skipBlanks rest
      let (v, rest) ← takeValue? (2 * rest.length + 2) 0 rest
      return (.define name names v, rest)
    | _ => none

/-- Whether nothing but blanks and a comment stands before the end of the line. -/
def endsLine (comment : Bool) : List Char → Bool
  | [] => true
  | ['\r'] => false
  | '\r' :: c :: _ => c = '\n'
  | c :: rest =>
    if c = '\n' then true
    else if comment then !isForbidden c && endsLine true rest
    else if c = ' ' || c = '\t' then endsLine false rest
    else c = '#' && endsLine true rest

/-- Each statement costs one unit of fuel. -/
def readStatements? : Nat → Draft → List Char → Option Draft
  | 0, _, _ => none
  | fuel + 1, d, cs =>
    match skipSpace false cs with
    | [] => some d
    | cs => do
      let (statement, rest) ← takeStatement? cs
      if endsLine false rest then readStatements? fuel (← d.add statement) rest else none

def read? (s : String) : Option Table :=
  let cs := match s.toList with
    | '\ufeff' :: rest => rest
    | cs => cs
  (readStatements? (cs.length + 1) {} cs).map fun d => d.root.table

end Blockwork.Toml
