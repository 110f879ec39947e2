import Blockwork.Proofs.Context.Stack

/-! Sequences of operations on scopes, with bodies of branches and loops inside. A context and its stack
go through them side by side, and in every context that such a sequence leads to the laws of the scopes
hold. -/

namespace Blockwork

variable {ε V : Type}

inductive Action (V : Type) where
  | push
  | pop
  | set (name : String) (v : V)
  | declare (name : String) (v : V)
  | setEscape (e : Escape)
  | takeEscape

namespace Action

def run : Action V → Traversal ε V Unit
  | .push => modify fun c => c.push
  | .pop => modify fun c => c.pop
  | .set name v => modify fun c => c.set name v
  | .declare name v => modify fun c => c.declare name v
  | .setEscape e => modify fun c => c.setEscape e
  | .takeEscape => do let _ ← Traversal.takeEscape

def onStack? : Action V → Stack V → Option (Stack V)
  | .push, s => some s.push
  | .pop, s => some s.pop.2
  | .set name v, s => s.set? name v
  | .declare name v, s =>
    s.modifyRoot? fun scope => { scope with bindings := scope.bindings.put name v }
  | .setEscape e, s => s.modifyCurrent? fun scope => { scope with escape := e }
  | .takeEscape, s => s.modifyCurrent? fun scope => { scope with escape := .none }

theorem onStack?_stack (a : Action V) (c : Context V) : ∃ c',
    outcome (a.run : Traversal ε V Unit) c = (.ok (), c') ∧ a.onStack? c.stack = some c'.stack := by
  cases a with
  | push => exact ⟨c.push, rfl, congrArg some c.push_stack⟩
  | pop => exact ⟨c.pop, rfl, by rw [onStack?, Context.pop_stack]⟩
  | set name v => exact ⟨c.set name v, rfl, c.set?_stack name v⟩
  | declare name v => exact ⟨c.declare name v, rfl, rfl⟩
  | setEscape e => exact ⟨c.setEscape e, rfl, c.modifyCurrent?_stack _⟩
  | takeEscape => exact ⟨c.setEscape .none, rfl, c.modifyCurrent?_stack _⟩

end Action

/-- A sequence of actions and of bodies in scopes of their own, which ends well or with an error. What
comes after a body is done however the body ends; work that passes an error on ends there with it. In
the midst of a body the scopes are those of a sequence that pushes a scope in place of the body. -/
inductive Script (ε V : Type) where
  | ends (result : Except ε Unit)
  | act (a : Action V) (rest : Script ε V)
  | inBranch (body rest : Script ε V)
  | inLoop (body rest : Script ε V)

namespace Script

def run : Script ε V → Traversal ε V Unit
  | .ends result => fun c => (result, c)
  | .act a rest => do
    a.run
    rest.run
  | .inBranch body rest => fun c => outcome rest.run (outcome (Traversal.inBranch body.run) c).2
  | .inLoop body rest => fun c => outcome rest.run (outcome (Traversal.inLoop body.run) c).2

def onStack? : Script ε V → Stack V → Option (Stack V)
  | .ends _, s => some s
  | .act a rest, s => do rest.onStack? (← a.onStack? s)
  | .inBranch body rest, s => do
    let (closed, s) := (← body.onStack? s.push).pop
    rest.onStack? (← s.handOver? closed)
  | .inLoop body rest, s => do rest.onStack? (← body.onStack? s.push).pop.2

theorem onStack?_stack (script : Script ε V) (c : Context V) :
    script.onStack? c.stack = some (outcome script.run c).2.stack := by
  induction script generalizing c with
  | ends result => rfl
  | act a rest ih =>
    obtain ⟨c', hrun, hstack⟩ : ∃ c', outcome (a.run : Traversal ε V Unit) c = (.ok (), c') ∧ _ :=
      a.onStack?_stack c
    rw [onStack?, hstack, run, outcome_bind, hrun]
    exact ih c'
  | inBranch body rest ihBody ihRest =>
    rw [onStack?, c.push_stack, ihBody, Option.bind_eq_bind, Option.bind_some, Context.pop_stack]
    show (Stack.handOver? _ _ >>= rest.onStack?) = _
    rw [Context.handOver?_stack]
    exact ihRest _
  | inLoop body rest ihBody ihRest =>
    rw [onStack?, c.push_stack, ihBody, Option.bind_eq_bind, Option.bind_some, Context.pop_stack]
    exact ihRest _

/-- A branch that fails hands its escape on all the same. -/
example : (outcome (run (.inBranch (.act (.setEscape .breaking) (.ends (.error ()))) (.ends (.ok ()))))
    ({} : Context V)).2.escape = .breaking := rfl

end Script

/-! ### Laws of the scopes -/

namespace Context

structure Lawful (c : Context V) : Prop where
  stack_ne_nil : c.stack ≠ []
  root : c.stack.root? = some c.root
  current : c.stack.current? = some c.current
  depth : c.stack.depth? = some c.depth
  assigned : ∀ name v, (c.set name v).get? name = some v
  others : ∀ name v other, other ≠ name → (c.set name v).get? other = c.get? other
  /-- A name becomes bound only where neither the current scope nor the root binds it. -/
  names : ∀ name v, (c.set name v).names =
    if name ∈ c.current.bindings.names ∨ name ∈ c.root.bindings.names then c.names
    else c.names.dropLast ++ [c.current.bindings.names ++ [name]]
  /-- Assignments in a scope that is closed again are seen behind it only through the root. -/
  closed : ∀ sets name, (c.push.setAll sets).pop.get? name ≠ c.get? name →
    name ∈ c.root.bindings.names ∧ (c.depth ≠ 0 → name ∉ c.current.bindings.names)

theorem lawful (c : Context V) : c.Lawful where
  stack_ne_nil := List.cons_ne_nil c.root c.inner.reverse
  root := c.root?_stack
  current := c.current?_stack
  depth := c.depth?_stack
  assigned := c.get?_set_self
  others _ v _ h := c.get?_set_of_ne v h
  names := c.names_set
  closed sets name h := by
    rw [get?_pop_setAll_push] at h
    split at h
    case isTrue hreach => exact ⟨hreach.1, local?_eq_none.1 hreach.2⟩
    case isFalse => exact absurd rfl h

end Context

/-- From a root, with or without bindings of the host, every script goes through on the stack, and it
leads to a context with that stack in which the laws of the scopes hold. -/
theorem Script.lawful_of_run (bindings : List (String × V)) (script : Script ε V) :
    ∃ result c, outcome script.run (.ofBindings bindings) = (result, c) ∧
      script.onStack? (.ofBindings bindings) = some c.stack ∧ c.Lawful :=
  ⟨_, _, rfl, script.onStack?_stack (.ofBindings bindings), Context.lawful _⟩

end Blockwork
