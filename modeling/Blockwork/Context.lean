import Blockwork.Entries

/-! The scopes of a traversal: a root, and one further scope for each loop or branch that is open.
A name is looked up in the innermost scope and in the root, never in those between. -/

namespace Blockwork

inductive Escape where
  | none
  | breaking
  | continuing
deriving Repr, DecidableEq

structure Scope (V : Type) where
  bindings : Entries V := []
  escape : Escape := .none

/-- The innermost scope comes first. -/
structure Context (V : Type) where
  inner : List (Scope V) := []
  root : Scope V := {}

namespace Context

variable {V : Type}

/-- A root with the host's bindings: a repeated name keeps its first place and its last value. -/
def ofBindings (bindings : List (String × V)) : Context V :=
  { root := { bindings := Entries.ofList bindings } }

def depth (c : Context V) : Nat := c.inner.length

def current (c : Context V) : Scope V := c.inner.headD c.root

def modifyCurrent (c : Context V) (f : Scope V → Scope V) : Context V :=
  match c.inner with
  | [] => { c with root := f c.root }
  | scope :: rest => { c with inner := f scope :: rest }

def push (c : Context V) : Context V := { c with inner := {} :: c.inner }

/-- Closes the innermost scope; the root stays open. -/
def pop (c : Context V) : Context V := { c with inner := c.inner.tail }

def get? (c : Context V) (name : String) : Option V :=
  match c.current.bindings.get? name with
  | some v => some v
  | none => c.root.bindings.get? name

def setCurrent (c : Context V) (name : String) (v : V) : Context V :=
  c.modifyCurrent fun scope => { scope with bindings := scope.bindings.put name v }

def declare (c : Context V) (name : String) (v : V) : Context V :=
  { c with root := { c.root with bindings := c.root.bindings.put name v } }

/-- Assigns where the name is bound, in the innermost scope or in the root; a new name is bound in
the innermost scope. -/
def set (c : Context V) (name : String) (v : V) : Context V :=
  if c.current.bindings.contains name then c.setCurrent name v
  else if c.root.bindings.contains name then c.declare name v
  else c.setCurrent name v

def escape (c : Context V) : Escape := c.current.escape

def setEscape (c : Context V) (e : Escape) : Context V :=
  c.modifyCurrent fun scope => { scope with escape := e }

/-- Closes the scope of a branch: its escape is handed to the scope around it. -/
def closeBranch (c : Context V) : Context V :=
  if c.escape = .none then c.pop else c.pop.setEscape c.escape

/-- Closes the scope of a loop, and with it an escape that is left over. -/
def closeLoop (c : Context V) : Context V := c.pop

end Context
end Blockwork
