import Blockwork.Toml.Basic

/-! Tables under construction. A document gives the members of a table in several places, and how a
table came to be decides who may still add to it. -/

namespace Blockwork.Toml

inductive Origin where
  /-- The table has a header of its own. -/
  | header
  /-- The table is on the way to another one in a header. -/
  | implied
  /-- The table is on the way to a value in a key with dots. -/
  | dotted
deriving Repr, DecidableEq

inductive Node where
  | value (v : Toml)
  | table (origin : Origin) (members : List (String × Node))
  /-- A list of tables, of which only the last is open. -/
  | tables (closed : List (List (String × Node))) (last : List (String × Node))

namespace Node

abbrev Members := Entries Node

mutual

def toml : Node → Toml
  | .value v => v
  | .table _ members => .table (Entries.sorted (membersToml members))
  | .tables closed last =>
    .array (tablesToml closed ++ [.table (Entries.sorted (membersToml last))])

def membersToml : List (String × Node) → List (String × Toml)
  | [] => []
  | (name, node) :: rest => (name, node.toml) :: membersToml rest

def tablesToml : List (List (String × Node)) → List Toml
  | [] => []
  | members :: rest => .table (Entries.sorted (membersToml members)) :: tablesToml rest

end

namespace Members

/-- Changes the table at the end of the path of a header. Missing tables are implied. -/
def underHeader (change : Members → Option Members) : List String → Members → Option Members
  | [], ms => change ms
  | name :: path, ms => do
    let node ← match ms.get? name with
      | none => do pure (.table .implied (← underHeader change path []))
      | some (.table origin inner) => do pure (.table origin (← underHeader change path inner))
      | some (.tables closed last) => do pure (.tables closed (← underHeader change path last))
      | some (.value _) => none
    return ms.put name node

def define (name : String) (path : List String) (v : Toml) (ms : Members) : Option Members :=
  match path with
  | [] => if ms.contains name then none else some (ms.put name (.value v))
  | next :: path => do
    let inner ← match ms.get? name with
      | none => some []
      | some (.table .dotted inner) => some inner
      | some (.table .implied inner) => if path.isEmpty then none else some inner
      | _ => none
    return ms.put name (.table .dotted (← define next path v inner))

def openTable (name : String) (ms : Members) : Option Members :=
  match ms.get? name with
  | none => some (ms.put name (.table .header []))
  | some (.table .implied inner) => some (ms.put name (.table .header inner))
  | some _ => none

def openTables (name : String) (ms : Members) : Option Members :=
  match ms.get? name with
  | none => some (ms.put name (.tables [] []))
  | some (.tables closed last) => some (ms.put name (.tables (closed ++ [last]) []))
  | some _ => none

def table (ms : Members) : Table := Entries.sorted (membersToml ms)

end Members
end Node
end Blockwork.Toml
