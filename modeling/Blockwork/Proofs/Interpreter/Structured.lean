import Blockwork.Proofs.Context.Frame

/-! A second interpreter, whose scopes hold bindings alone. It has no escapes to set or to poll: each
block says how it ends, and the constructs around it act on that. -/

namespace Blockwork

structure Scopes (V : Type) where
  inner : List (Entries V) := []
  root : Entries V := []

def Context.scopes {V : Type} (c : Context V) : Scopes V :=
  ⟨c.inner.map Scope.bindings, c.root.bindings⟩

namespace Scopes

variable {V : Type}

def context (s : Scopes V) : Context V :=
  ⟨s.inner.map fun bindings => { bindings }, { bindings := s.root }⟩

def push (s : Scopes V) : Scopes V := { s with inner := [] :: s.inner }

def pop (s : Scopes V) : Scopes V := { s with inner := s.inner.tail }

def current (s : Scopes V) : Entries V := s.inner.headD s.root

def get? (s : Scopes V) (name : String) : Option V :=
  match s.current.get? name with
  | some v => some v
  | none => s.root.get? name

def setCurrent (s : Scopes V) (name : String) (v : V) : Scopes V :=
  match s.inner with
  | [] => { s with root := s.root.put name v }
  | bindings :: rest => { s with inner := bindings.put name v :: rest }

def set (s : Scopes V) (name : String) (v : V) : Scopes V :=
  if s.current.contains name then s.setCurrent name v
  else if s.root.contains name then { s with root := s.root.put name v }
  else s.setCurrent name v

end Scopes

/-- Work on scopes. A block gives its value and how it ends: `Escape.none` where it ends normally. -/
abbrev Structured (α : Type) := ExceptT Halt (StateM (Scopes Value)) α

instance : MonadLift (Except EngineError) (ExceptT Halt (StateM (Scopes Value))) :=
  ⟨fun x s => (x.mapError .error, s)⟩

namespace Structured

variable {α : Type}

def ofRun (m : Run α) : Structured α := fun s =>
  let (result, c) := outcome m s.context
  (result, c.scopes)

def inScope (m : Structured α) : Structured α := fun s =>
  let (result, s) := outcome m s.push
  (result, s.pop)

def iterate {σ : Type} (step : σ → Structured (Option σ)) : Nat → σ → Structured Unit
  | 0, _ => throw .unfinished
  | limit + 1, s => do
    match ← step s with
    | some s => iterate step limit s
    | none => return ()

def get (name : String) : Structured Value := return ((← MonadState.get).get? name).getD .null

def set (name : String) (v : Value) : Structured Unit := modify fun s => s.set name v

end Structured

def Parts.withoutBodies (p : Parts (Run Value)) : Parts (Run Value) := { p with statements := [] }

abbrev Bodies := List (String × Structured Escape)

namespace Bodies

open Structured

variable (bodies : Bodies) (p : Parts (Run Value))

def run (name : String) : Structured Escape := do
  match bodies.lookup name with
  | none => return .none
  | some body => body

/-- A round goes on to the next one unless its body breaks. -/
def round : Structured Bool := return (← bodies.run "DO") != .breaking

def runArms (hasElse : Bool) : List Nat → Structured Escape
  | [] => if hasElse then inScope (bodies.run "ELSE") else return .none
  | i :: rest => do
    if ← ofRun (p.evaluateCondition (numbered "IF" i)) then
      inScope (bodies.run (numbered "DO" i))
    else runArms hasElse rest

def runBranch (alwaysElse : Bool) : Structured Escape := do
  let (count, hasElse) ← p.arms alwaysElse
  bodies.runArms p hasElse (List.range count)

def runRepeat (limit : Nat) (source : CountSource) : Structured Unit := do
  let times ← ofRun (p.repeatCount source)
  inScope <| iterate (fun count => do
    if count < times then
      if ← bodies.round then return some (count + 1.0) else return none
    else return none) limit 0.0

def runWhileUntil (limit : Nat) : LoopMode → Structured Unit
  | .repeatWhile =>
    inScope <| iterate (fun () => do
      if ← ofRun (p.evaluateCondition "BOOL") then
        if ← bodies.round then return some () else return none
      else return none) limit ()
  | .repeatUntil =>
    inScope <| iterate (fun () => do
      if ← ofRun (p.evaluateCondition "BOOL") then return none
      else
        let _ ← bodies.run "DO"
        return some ()) limit ()

def runRange (limit : Nat) : Structured Unit := do
  let name ← p.variable
  let first ← ofRun (p.evaluateNumber "FROM")
  let last ← ofRun (p.evaluateNumber "TO")
  let size := (← ofRun (p.evaluateNumber "BY")).abs
  let step := if first > last then -size else size
  inScope do
    set name (.number first)
    iterate (fun () => do
      let current ← (← get name).asNumber
      if (if step ≥ 0.0 then current ≤ last else current ≥ last) then
        if ← bodies.round then
          let current ← (← get name).asNumber
          set name (.number (current + step))
          return some ()
        else return none
      else return none) limit ()

def runItems (name : String) : List Value → Structured Unit
  | [] => return ()
  | item :: rest => do
    set name item
    if ← bodies.round then runItems name rest

def runForEach : Structured Unit := do
  let name ← p.variable
  let items ← (← ofRun (p.evaluate "LIST")).asList
  inScope (bodies.runItems name items)

end Bodies

/-- Only an escape statement and a branch may end other than normally. -/
def Kind.structured (limit : Nat) (p : Parts (Run Value)) (bodies : Bodies) :
    Kind → Structured (Value × Escape)
  | .branch alwaysElse => do return (.null, ← bodies.runBranch p alwaysElse)
  | .repeatTimes source => do
    bodies.runRepeat p limit source
    return (.null, .none)
  | .whileUntil => do
    bodies.runWhileUntil p limit (← p.option "MODE" LoopMode.options)
    return (.null, .none)
  | .countRange => do
    bodies.runRange p limit
    return (.null, .none)
  | .forEach => do
    bodies.runForEach p
    return (.null, .none)
  | .flow => do return (.null, ← p.option "FLOW" flowOptions)
  | kind => do return (← Structured.ofRun (kind.evaluate limit p), .none)

mutual

def Block.structured (limit : Nat) : Block Kind → Structured (Value × Escape)
  | ⟨kind, tag, id, fields, values, statements, mutations, _⟩ =>
    kind.structured limit
      { tag, id, fields, mutations
        values := evaluateSockets limit values
        statements := [] } (bodiesOf limit statements)

def bodiesOf (limit : Nat) : List (Socket Kind) → Bodies
  | [] => []
  | ⟨name, chain⟩ :: rest =>
    (name, fun s => (Prod.snd <$> structuredChain limit chain) s) :: bodiesOf limit rest

/-- A chain stops at the first block that does not end normally, and ends as that block. -/
def structuredChain (limit : Nat) : List (Block Kind) → Structured (Value × Escape)
  | [] => return (.null, .none)
  | block :: rest => do
    let (v, e) ← block.structured limit
    if e = .none then return (v, ← structuredRest limit rest) else return (v, e)

def structuredRest (limit : Nat) : List (Block Kind) → Structured Escape
  | [] => return .none
  | block :: rest => do
    let (_, e) ← block.structured limit
    if e = .none then structuredRest limit rest else return e

end

/-! ### Programs that a structured reading fits -/

def Kind.isLoop : Kind → Bool
  | .repeatTimes _ | .whileUntil | .countRange | .forEach => true
  | _ => false

mutual

/-- The block is an escape statement or has one in its bodies outside of all loops in it. -/
def Block.raises : Block Kind → Bool
  | ⟨kind, _, _, _, _, statements, _, _⟩ =>
    kind = .flow || (!kind.isLoop && raisesInSlots statements)

def raisesInSlots : List (Socket Kind) → Bool
  | [] => false
  | ⟨_, chain⟩ :: rest => chainRaises chain || raisesInSlots rest

def chainRaises : List (Block Kind) → Bool
  | [] => false
  | block :: rest => block.raises || chainRaises rest

end

def Block.isUntil (b : Block Kind) : Bool :=
  b.kind = .whileUntil && b.fields.get? "MODE" = some "UNTIL"

def holdsValue : List (Block Kind) → Bool
  | [] => true
  | [block] => block.kind.isValue
  | _ => false

/-- Value slots hold values, and no escape has a loop of the other mode as its innermost loop. -/
structure Block.Tame (b : Block Kind) : Prop where
  values : ∀ s ∈ b.values, holdsValue s.chain = true
  bodies : b.isUntil = true → ∀ s ∈ b.statements, chainRaises s.chain = false

instance : DecidablePred Block.Tame := fun b =>
  decidable_of_iff ((∀ s ∈ b.values, holdsValue s.chain = true) ∧
      (b.isUntil = true → ∀ s ∈ b.statements, chainRaises s.chain = false))
    ⟨fun h => ⟨h.1, h.2⟩, fun h => ⟨h.values, h.bodies⟩⟩

end Blockwork
