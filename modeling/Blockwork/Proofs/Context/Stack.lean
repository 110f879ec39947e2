import Blockwork.Proofs.Context.Assignment

/-! The open scopes as one stack with the root at its bottom. What looks for the root, for the current
scope or for the depth fails on an empty stack. Whatever is done to the scopes of a context, with bodies
that succeed or fail, can be done to its stack: nothing fails there, for the root is never closed. -/

namespace Blockwork

/-- The root is at the bottom, which comes first, and the current scope at the top. -/
abbrev Stack (V : Type) := List (Scope V)

namespace Stack

variable {V : Type}

def ofBindings (bindings : List (String × V)) : Stack V :=
  [{ bindings := Entries.ofList bindings }]

def root? (s : Stack V) : Option (Scope V) := s[0]?

def current? (s : Stack V) : Option (Scope V) := s.getLast?

def depth? (s : Stack V) : Option Nat := if s.isEmpty then none else some (s.length - 1)

def modifyRoot? (s : Stack V) (f : Scope V → Scope V) : Option (Stack V) := do
  return s.set 0 (f (← s.root?))

def modifyCurrent? (s : Stack V) (f : Scope V → Scope V) : Option (Stack V) := do
  return s.dropLast ++ [f (← s.current?)]

def push (s : Stack V) : Stack V := s ++ [({} : Scope V)]

def pop (s : Stack V) : Option (Scope V) × Stack V :=
  if 1 < s.length then (s.getLast?, s.dropLast) else (none, s)

def set? (s : Stack V) (name : String) (v : V) : Option (Stack V) := do
  let assign := fun scope : Scope V => { scope with bindings := scope.bindings.put name v }
  if (← s.current?).bindings.contains name then s.modifyCurrent? assign
  else if (← s.root?).bindings.contains name then s.modifyRoot? assign
  else s.modifyCurrent? assign

def handOver? (s : Stack V) : Option (Scope V) → Option (Stack V)
  | none => some s
  | some closed =>
    if closed.escape = .none then some s
    else s.modifyCurrent? fun scope => { scope with escape := closed.escape }

end Stack

namespace Context

variable {V : Type}

def stack (c : Context V) : Stack V := c.root :: c.inner.reverse

theorem stack_inner (scope : Scope V) (rest : List (Scope V)) (root : Scope V) :
    (⟨scope :: rest, root⟩ : Context V).stack = (root :: rest.reverse) ++ [scope] := by
  rw [stack, List.reverse_cons, List.cons_append]

@[simp] theorem current?_stack (c : Context V) : c.stack.current? = some c.current := by
  obtain ⟨_ | ⟨scope, rest⟩, root⟩ := c
  · rfl
  · rw [stack_inner, Stack.current?, List.getLast?_concat]
    rfl

@[simp] theorem root?_stack (c : Context V) : c.stack.root? = some c.root := rfl

theorem depth?_stack (c : Context V) : c.stack.depth? = some c.depth := by
  simp [stack, Stack.depth?, depth]

theorem stack_modifyCurrent (c : Context V) (f : Scope V → Scope V) :
    (c.modifyCurrent f).stack = c.stack.dropLast ++ [f c.current] := by
  obtain ⟨_ | ⟨scope, rest⟩, root⟩ := c
  · rfl
  · rw [stack_inner, List.dropLast_concat]
    exact stack_inner (f scope) rest root

theorem modifyCurrent?_stack (c : Context V) (f : Scope V → Scope V) :
    c.stack.modifyCurrent? f = some (c.modifyCurrent f).stack := by
  rw [stack_modifyCurrent, Stack.modifyCurrent?, current?_stack]
  rfl

theorem push_stack (c : Context V) : c.stack.push = c.push.stack := by
  rw [Stack.push, push, stack_inner]
  rfl

theorem pop_stack (c : Context V) : c.stack.pop = (c.inner.head?, c.pop.stack) := by
  obtain ⟨_ | ⟨scope, rest⟩, root⟩ := c
  · rfl
  · have hlength : 1 < ((root :: rest.reverse) ++ [scope]).length := by simp
    rw [stack_inner, Stack.pop, if_pos hlength, List.getLast?_concat, List.dropLast_concat]
    rfl

theorem set?_stack (c : Context V) (name : String) (v : V) :
    c.stack.set? name v = some (c.set name v).stack := by
  have hset : c.stack.set? name v =
      if c.current.bindings.contains name then some (c.setCurrent name v).stack
      else if c.root.bindings.contains name then some (c.declare name v).stack
      else some (c.setCurrent name v).stack := by
    rw [setCurrent, ← modifyCurrent?_stack, Stack.set?, current?_stack]
    rfl
  rw [hset, Context.set, apply_ite stack, apply_ite stack, apply_ite some, apply_ite some]

theorem handOver?_stack (c : Context V) :
    c.pop.stack.handOver? c.inner.head? = some c.closeBranch.stack := by
  obtain ⟨_ | ⟨scope, rest⟩, root⟩ := c
  · rw [closeBranch]
    split <;> rfl
  · show (if scope.escape = .none then _ else _) = _
    rw [closeBranch, apply_ite stack, apply_ite some, setEscape, ← modifyCurrent?_stack]
    rfl

/-! ### Names -/

def names (c : Context V) : List (List String) := c.stack.map fun scope => scope.bindings.names

theorem names_setCurrent (c : Context V) (name : String) (v : V) : (c.setCurrent name v).names =
    c.names.dropLast ++ [(c.current.bindings.put name v).names] := by
  rw [names, setCurrent, stack_modifyCurrent, List.map_append, List.map_dropLast]
  rfl

theorem names_eq_current (c : Context V) :
    c.names = c.names.dropLast ++ [c.current.bindings.names] := by
  obtain ⟨_ | ⟨scope, rest⟩, root⟩ := c
  · rfl
  · rw [names, stack_inner, List.map_append, List.map_singleton, List.dropLast_concat]
    rfl

theorem names_declare {c : Context V} {name : String} (h : name ∈ c.root.bindings.names) (v : V) :
    (c.declare name v).names = c.names := by
  have hroot : (c.root.bindings.put name v).names = c.root.bindings.names :=
    Entries.names_put_of_contains v (Entries.contains_iff.2 h)
  show (c.root.bindings.put name v).names :: c.inner.reverse.map _ = _
  rw [hroot]
  rfl

theorem names_set (c : Context V) (name : String) (v : V) : (c.set name v).names =
    if name ∈ c.current.bindings.names ∨ name ∈ c.root.bindings.names then c.names
    else c.names.dropLast ++ [c.current.bindings.names ++ [name]] := by
  by_cases hcurrent : name ∈ c.current.bindings.names
  · rw [if_pos (.inl hcurrent), Context.set, if_pos (Entries.contains_iff.2 hcurrent),
      names_setCurrent, Entries.names_put, if_pos hcurrent, ← names_eq_current]
  rw [Context.set, if_neg (mt Entries.contains_iff.1 hcurrent)]
  by_cases hroot : name ∈ c.root.bindings.names
  · rw [if_pos (Entries.contains_iff.2 hroot), names_declare hroot, if_pos (.inr hroot)]
  · rw [if_neg (mt Entries.contains_iff.1 hroot), names_setCurrent, Entries.names_put,
      if_neg hcurrent, if_neg (not_or.2 ⟨hcurrent, hroot⟩)]

end Context
end Blockwork
