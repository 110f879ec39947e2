import Blockwork.Proofs.Interpreter.Breaks

/-! Programs whose variables are all bound in the root run on one store. A second interpreter reads and
writes the root alone; from a context whose other scopes bind nothing both do the same, and no scope
above the root ever comes to bind a name. -/

namespace Blockwork

/-! ### Contexts with one store -/

namespace Context

/-- The root binds these names, and the scopes above it bind none. -/
structure Global (names : List String) (c : Context Value) : Prop where
  root : c.root.bindings.names = names
  inner : ∀ scope ∈ c.inner, scope.bindings = []

namespace Global

variable {names : List String} {c : Context Value} {name : String}

theorem current (h : c.Global names) : c.current = c.root ∨ c.current.bindings = [] := by
  obtain ⟨_ | ⟨scope, rest⟩, root⟩ := c
  · exact .inl rfl
  · exact .inr (h.inner scope List.mem_cons_self)

theorem get?_eq (h : c.Global names) (name : String) : c.get? name = c.root.bindings.get? name := by
  unfold Context.get?
  rcases h.current with hcurrent | hcurrent
  · rw [hcurrent]
    cases c.root.bindings.get? name <;> rfl
  · rw [hcurrent]
    rfl

theorem set_eq (h : c.Global names) (hname : name ∈ names) (v : Value) :
    c.set name v = c.declare name v := by
  have hroot : c.root.bindings.contains name = true := Entries.contains_iff.2 (h.root ▸ hname)
  obtain ⟨_ | ⟨scope, rest⟩, root⟩ := c
  · exact if_pos hroot
  · have hscope : scope.bindings = [] := h.inner scope List.mem_cons_self
    have hcurrent : ¬ scope.bindings.contains name = true := by
      rw [hscope]
      exact Bool.false_ne_true
    exact (if_neg hcurrent).trans (if_pos hroot)

theorem declare (h : c.Global names) (hname : name ∈ names) (v : Value) :
    (c.declare name v).Global names :=
  ⟨(Entries.names_put_of_contains v (Entries.contains_iff.2 (h.root ▸ hname))).trans h.root, h.inner⟩

theorem setEscape (h : c.Global names) (e : Escape) : (c.setEscape e).Global names := by
  obtain ⟨_ | ⟨scope, rest⟩, root⟩ := c
  · exact ⟨h.root, h.inner⟩
  · refine ⟨h.root, fun other hother => ?_⟩
    rcases List.mem_cons.1 hother with rfl | hother
    · exact h.inner scope List.mem_cons_self
    · exact h.inner other (List.mem_cons_of_mem _ hother)

theorem push (h : c.Global names) : c.push.Global names := by
  refine ⟨h.root, fun scope hscope => ?_⟩
  rcases List.mem_cons.1 hscope with rfl | hscope
  · rfl
  · exact h.inner scope hscope

theorem pop (h : c.Global names) : c.pop.Global names :=
  ⟨h.root, fun scope hscope => h.inner scope (List.mem_of_mem_tail hscope)⟩

theorem closeBranch (h : c.Global names) : c.closeBranch.Global names := by
  unfold Context.closeBranch
  split
  · exact h.pop
  · exact h.pop.setEscape _

end Global
end Context

/-! ### The interpreter on one store -/

def Run.getGlobal (name : String) : Run Value :=
  return ((← MonadState.get).root.bindings.get? name).getD .null

def Run.setGlobal (name : String) (v : Value) : Run Unit := modify fun c => c.declare name v

namespace Parts

variable (p : Parts (Run Value))

def changeGlobal : Run Unit := do
  let name ← p.variable
  let delta ← p.evaluateNumber "DELTA"
  let current ← match ← Run.getGlobal name with
    | .null => pure 0.0
    | v => v.asNumber
  Run.setGlobal name (.number (current + delta))

def appendGlobal : Run Unit := do
  let name ← p.variable
  let suffix ← p.evaluateText "TEXT"
  let current := match ← Run.getGlobal name with
    | .null => ""
    | v => v.display
  Run.setGlobal name (.text (current ++ suffix))

def assignGlobal : Run Unit := do
  let name ← p.variable
  Run.setGlobal name (← p.evaluate "VALUE")

def rangeGlobal (limit : Nat) : Run Unit := do
  let name ← p.variable
  let first ← p.evaluateNumber "FROM"
  let last ← p.evaluateNumber "TO"
  let size := (← p.evaluateNumber "BY").abs
  let step := if first > last then -size else size
  Traversal.inLoop do
    Run.setGlobal name (.number first)
    Run.iterate (fun () => do
      let current ← (← Run.getGlobal name).asNumber
      if (if step ≥ 0.0 then current ≤ last else current ≥ last) then
        if ← p.executeRound then
          let current ← (← Run.getGlobal name).asNumber
          Run.setGlobal name (.number (current + step))
          return some ()
        else return none
      else return none) limit ()

def itemsGlobal (name : String) : List Value → Run Unit
  | [] => pure ()
  | item :: rest => do
    Run.setGlobal name item
    if ← p.executeRound then itemsGlobal name rest

def forEachGlobal : Run Unit := do
  let name ← p.variable
  let items ← (← p.evaluate "LIST").asList
  Traversal.inLoop (p.itemsGlobal name items)

end Parts

def Kind.evaluateGlobal (limit : Nat) (p : Parts (Run Value)) : Kind → Run Value
  | .countRange => do
    p.rangeGlobal limit
    return .null
  | .forEach => do
    p.forEachGlobal
    return .null
  | .change => do
    p.changeGlobal
    return .null
  | .append => do
    p.appendGlobal
    return .null
  | .get => do Run.getGlobal (← p.variable)
  | .set => do
    p.assignGlobal
    return .null
  | kind => kind.evaluate limit p

@[reducible]
def Kind.onStore : Behaviour Kind := ⟨Kind.evaluateGlobal, Kind.compile⟩

def evaluateGlobally (limit : Nat) (chain : List (Block Kind)) : Run Value :=
  @evaluateChain Kind Kind.onStore limit chain

def Block.storeParts (limit : Nat) (b : Block Kind) : Parts (Run Value) :=
  @Block.runParts Kind Kind.onStore limit b

/-! ### Runs that coincide -/

def Run.Coincide {α : Type} (names : List String) (m m' : Run α) : Prop :=
  ∀ c : Context Value, c.Global names →
    outcome m' c = outcome m c ∧ (outcome m c).2.Global names

namespace Run.Coincide

variable {α β : Type} {names : List String}

theorem of_kept {m : Run α} (h : ∀ c : Context Value, c.Global names → (outcome m c).2.Global names) :
    Coincide names m m := fun c hc => ⟨rfl, h c hc⟩

theorem pure (a : α) : Coincide names (Pure.pure a) (Pure.pure a) := .of_kept fun _ hc => hc

theorem lift (x : Except EngineError α) : Coincide names (liftM x) (liftM x) := by
  refine .of_kept fun c hc => ?_
  rw [outcome_lift]
  exact hc

theorem bind {m m' : Run α} {f f' : α → Run β} (h : Coincide names m m')
    (hf : ∀ a, Coincide names (f a) (f' a)) : Coincide names (m >>= f) (m' >>= f') := by
  intro c hc
  obtain ⟨heq, hkept⟩ := h c hc
  rw [outcome_bind, outcome_bind, heq]
  generalize outcome m c = x at hkept ⊢
  obtain ⟨e | a, c₁⟩ := x
  · exact ⟨rfl, hkept⟩
  · exact hf a c₁ hkept

theorem lift_bind {x : Except EngineError α} {f f' : α → Run β}
    (h : ∀ a, x = .ok a → Coincide names (f a) (f' a)) :
    Coincide names (liftM x >>= f) (liftM x >>= f') := by
  cases x with
  | error e => exact .of_kept fun _ hc => hc
  | ok a => exact h a rfl

theorem map {f : α → β} {m m' : Run α} (h : Coincide names m m') :
    Coincide names (f <$> m) (f <$> m') := h.bind fun _ => .pure _

theorem mapM {f f' : α → Run β} (h : ∀ a, Coincide names (f a) (f' a)) (as : List α) :
    Coincide names (as.mapM f) (as.mapM f') := by
  induction as with
  | nil => exact .pure []
  | cons a rest ih =>
    rw [List.mapM_cons, List.mapM_cons]
    exact (h a).bind fun _ => ih.bind fun _ => .pure _

theorem ite {p : Prop} [Decidable p] {m m' n n' : Run α} (h : Coincide names m m')
    (h' : Coincide names n n') : Coincide names (if p then m else n) (if p then m' else n') := by
  split
  · exact h
  · exact h'

theorem get (name : String) : Coincide names (Run.get name) (getGlobal name) := by
  refine fun c hc => ⟨?_, hc⟩
  rw [outcome_get, hc.get?_eq]
  rfl

theorem set {name : String} (hname : name ∈ names) (v : Value) :
    Coincide names (Run.set name v) (setGlobal name v) := by
  intro c hc
  rw [outcome_set, hc.set_eq hname]
  exact ⟨rfl, hc.declare hname v⟩

theorem raise (e : Escape) :
    Coincide names (modify fun c => c.setEscape e) (modify fun c => c.setEscape e) :=
  .of_kept fun _ hc => hc.setEscape e

theorem takeEscape : Coincide names Traversal.takeEscape Traversal.takeEscape :=
  .of_kept fun _ hc => hc.setEscape .none

theorem inBranch {m m' : Run α} (h : Coincide names m m') :
    Coincide names (Traversal.inBranch m) (Traversal.inBranch m') := by
  intro c hc
  obtain ⟨heq, hkept⟩ := h c.push hc.push
  rw [Traversal.outcome_inBranch, Traversal.outcome_inBranch, heq]
  exact ⟨rfl, hkept.closeBranch⟩

theorem inLoop {m m' : Run α} (h : Coincide names m m') :
    Coincide names (Traversal.inLoop m) (Traversal.inLoop m') := by
  intro c hc
  obtain ⟨heq, hkept⟩ := h c.push hc.push
  rw [Traversal.outcome_inLoop, Traversal.outcome_inLoop, heq]
  exact ⟨rfl, hkept.pop⟩

theorem iterate {σ : Type} {step step' : σ → Run (Option σ)}
    (h : ∀ s, Coincide names (step s) (step' s)) (limit : Nat) (s : σ) :
    Coincide names (Run.iterate step limit s) (Run.iterate step' limit s) := by
  induction limit generalizing s with
  | zero => exact .of_kept fun _ hc => hc
  | succ limit ih =>
    intro c hc
    obtain ⟨heq, hkept⟩ := h s c hc
    rw [outcome_iterate_succ, outcome_iterate_succ, heq]
    generalize outcome (step s) c = x at hkept ⊢
    obtain ⟨e | _ | s', c₁⟩ := x
    · exact ⟨rfl, hkept⟩
    · exact ⟨rfl, hkept⟩
    · exact ih s' c₁ hkept

end Run.Coincide

/-! ### Kinds -/

open Run (Coincide)

section

variable {names : List String} {limit : Nat} {b : Block Kind}

section

variable (hvalues : ∀ s ∈ b.values,
  Coincide names (evaluateChain limit s.chain) (evaluateGlobally limit s.chain))

include hvalues

theorem coincide_valueThen {α : Type} (name : String) {f f' : Plug (Run Value) → Run α}
    (h : ∀ plug plug' : Plug (Run Value), plug.filled = plug'.filled →
      Coincide names plug.meaning plug'.meaning → Coincide names (f plug) (f' plug')) :
    Coincide names (liftM ((b.runParts limit).value name) >>= f)
      (liftM ((b.storeParts limit).value name) >>= f') := by
  have hstore : (b.storeParts limit).values = b.values.map fun s =>
      (s.name, ⟨!s.chain.isEmpty, evaluateGlobally limit s.chain⟩) :=
    @Block.values_runParts Kind Kind.onStore limit b
  unfold Parts.value
  rw [Block.values_runParts, hstore]
  obtain ⟨hrun, hglobal⟩ | ⟨s, hs, -, hrun, hglobal⟩ := lookup_sockets b.values
    (fun s => (⟨!s.chain.isEmpty, evaluateChain limit s.chain⟩ : Plug (Run Value)))
    (fun s => (⟨!s.chain.isEmpty, evaluateGlobally limit s.chain⟩ : Plug (Run Value))) name
  · rw [hrun, hglobal]
    exact .of_kept fun _ hc => hc
  · rw [hrun, hglobal]
    exact h _ _ rfl (hvalues s hs)

theorem coincide_evaluate (name : String) :
    Coincide names ((b.runParts limit).evaluate name) ((b.storeParts limit).evaluate name) :=
  coincide_valueThen hvalues name fun _ _ _ h => h

theorem coincide_condition (name : String) : Coincide names
    ((b.runParts limit).evaluateCondition name) ((b.storeParts limit).evaluateCondition name) :=
  (coincide_evaluate hvalues name).bind fun _ => .lift _

theorem coincide_number (name : String) : Coincide names
    ((b.runParts limit).evaluateNumber name) ((b.storeParts limit).evaluateNumber name) :=
  (coincide_evaluate hvalues name).bind fun _ => .lift _

theorem coincide_text (name : String) : Coincide names
    ((b.runParts limit).evaluateText name) ((b.storeParts limit).evaluateText name) :=
  (coincide_evaluate hvalues name).map

theorem coincide_joined (name : String) : Coincide names
    ((b.runParts limit).joinedText name) ((b.storeParts limit).joinedText name) := by
  refine coincide_valueThen hvalues name fun plug plug' hfilled h => ?_
  rw [hfilled]
  exact .ite h.map (.pure "")

theorem coincide_junction (junction : Junction) : Coincide names
    ((b.runParts limit).evaluateJunction junction)
    ((b.storeParts limit).evaluateJunction junction) := by
  refine (coincide_condition hvalues "A").bind fun first => ?_
  split
  · exact (coincide_condition hvalues "B").map
  · exact (coincide_condition hvalues "B").map
  · exact .pure _

theorem coincide_ternary : Coincide names
    (b.runParts limit).evaluateTernary (b.storeParts limit).evaluateTernary :=
  (coincide_condition hvalues "IF").bind fun _ =>
    .ite (coincide_evaluate hvalues "THEN") (coincide_evaluate hvalues "ELSE")

theorem coincide_property (property : Property) : Coincide names
    ((b.runParts limit).evaluateProperty property)
    ((b.storeParts limit).evaluateProperty property) := by
  refine (coincide_number hvalues "NUMBER_TO_CHECK").bind fun x => ?_
  split
  · exact (coincide_number hvalues "DIVISOR").map
  · exact .pure _

theorem coincide_constrain : Coincide names
    (b.runParts limit).evaluateConstrain (b.storeParts limit).evaluateConstrain :=
  (coincide_number hvalues "VALUE").bind fun _ => (coincide_number hvalues "LOW").bind fun _ =>
    (coincide_number hvalues "HIGH").map

theorem coincide_count (source : CountSource) : Coincide names
    ((b.runParts limit).repeatCount source) ((b.storeParts limit).repeatCount source) := by
  cases source with
  | input => exact coincide_number hvalues "TIMES"
  | field => exact (Coincide.lift _).bind fun _ => (Coincide.lift _).map

/-! ### Assignments -/

variable (hbound : ∀ name ∈ b.fields.get? "VAR", name ∈ names)

include hbound

omit hvalues in
theorem coincide_variable {α : Type} {f f' : String → Run α}
    (h : ∀ name ∈ names, Coincide names (f name) (f' name)) :
    Coincide names (liftM (b.runParts limit).variable >>= f)
      (liftM (b.storeParts limit).variable >>= f') :=
  .lift_bind fun name hname => h name (hbound name (Parts.field_eq_ok.1 hname))

theorem coincide_change :
    Coincide names (b.runParts limit).executeChange (b.storeParts limit).changeGlobal := by
  refine coincide_variable hbound fun name hname => ?_
  refine (coincide_number hvalues "DELTA").bind fun delta => (Coincide.get name).bind fun v => ?_
  -- A variable without a value is not read as a number, so the two cases go through other steps.
  cases v with
  | null => exact .set hname _
  | _ => exact (Coincide.lift _).bind fun _ => .set hname _

theorem coincide_append :
    Coincide names (b.runParts limit).executeAppend (b.storeParts limit).appendGlobal :=
  coincide_variable hbound fun name hname => (coincide_text hvalues "TEXT").bind fun _ =>
    (Coincide.get name).bind fun _ => .set hname _

theorem coincide_assign :
    Coincide names (b.runParts limit).executeSet (b.storeParts limit).assignGlobal :=
  coincide_variable hbound fun _ hname => (coincide_evaluate hvalues "VALUE").bind fun _ =>
    .set hname _

end

/-! ### Branches and loops -/

section

variable (hbodies : ∀ s ∈ b.statements,
  Coincide names (evaluateChain limit s.chain) (evaluateGlobally limit s.chain))

include hbodies

theorem coincide_execute (name : String) :
    Coincide names ((b.runParts limit).execute name) ((b.storeParts limit).execute name) := by
  have hstore : (b.storeParts limit).statements = b.statements.map fun s =>
      (s.name, ⟨!s.chain.isEmpty, evaluateGlobally limit s.chain⟩) :=
    @Block.statements_runParts Kind Kind.onStore limit b
  unfold Parts.execute
  rw [Block.statements_runParts, hstore]
  obtain ⟨hrun, hglobal⟩ | ⟨s, hs, -, hrun, hglobal⟩ := lookup_sockets b.statements
    (fun s => (⟨!s.chain.isEmpty, evaluateChain limit s.chain⟩ : Plug (Run Value)))
    (fun s => (⟨!s.chain.isEmpty, evaluateGlobally limit s.chain⟩ : Plug (Run Value))) name
  · rw [hrun, hglobal]
    exact .pure ()
  · rw [hrun, hglobal]
    exact (hbodies s hs).map

theorem coincide_round :
    Coincide names (b.runParts limit).executeRound (b.storeParts limit).executeRound :=
  (coincide_execute hbodies "DO").bind fun _ => Coincide.takeEscape.map

variable (hvalues : ∀ s ∈ b.values,
  Coincide names (evaluateChain limit s.chain) (evaluateGlobally limit s.chain))

include hvalues

theorem coincide_arms (hasElse : Bool) (arms : List Nat) : Coincide names
    ((b.runParts limit).executeArms hasElse arms)
    ((b.storeParts limit).executeArms hasElse arms) := by
  induction arms with
  | nil => exact .ite (coincide_execute hbodies "ELSE").inBranch (.pure ())
  | cons i rest ih =>
    exact (coincide_condition hvalues _).bind fun _ => .ite (coincide_execute hbodies _).inBranch ih

theorem coincide_branch (alwaysElse : Bool) : Coincide names
    ((b.runParts limit).executeBranch alwaysElse)
    ((b.storeParts limit).executeBranch alwaysElse) :=
  .lift_bind fun _ _ => coincide_arms hbodies hvalues _ _

theorem coincide_repeat (source : CountSource) : Coincide names
    ((b.runParts limit).executeRepeat limit source)
    ((b.storeParts limit).executeRepeat limit source) := by
  refine (coincide_count hvalues source).bind fun times => .inLoop (.iterate (fun count => ?_) limit _)
  exact .ite ((coincide_round hbodies).bind fun _ => .ite (.pure _) (.pure _)) (.pure _)

theorem coincide_whileUntil (mode : LoopMode) : Coincide names
    ((b.runParts limit).executeWhileUntil limit mode)
    ((b.storeParts limit).executeWhileUntil limit mode) := by
  cases mode with
  | repeatWhile =>
    refine .inLoop (.iterate (fun _ => (coincide_condition hvalues "BOOL").bind fun _ => ?_) limit ())
    exact .ite ((coincide_round hbodies).bind fun _ => .ite (.pure _) (.pure _)) (.pure _)
  | repeatUntil =>
    refine .inLoop (.iterate (fun _ => (coincide_condition hvalues "BOOL").bind fun _ => ?_) limit ())
    exact .ite (.pure _) (coincide_execute hbodies "DO").map

variable (hbound : ∀ name ∈ b.fields.get? "VAR", name ∈ names)

include hbound

theorem coincide_range : Coincide names
    ((b.runParts limit).executeRange limit) ((b.storeParts limit).rangeGlobal limit) := by
  refine coincide_variable hbound fun name hname => ?_
  refine (coincide_number hvalues "FROM").bind fun first => ?_
  refine (coincide_number hvalues "TO").bind fun last => ?_
  refine (coincide_number hvalues "BY").bind fun size => .inLoop ?_
  refine (Coincide.set hname _).bind fun _ => .iterate (fun _ => ?_) limit ()
  -- The variable is read twice in a round: the body may have assigned to it in between.
  refine (Coincide.get name).bind fun v => (Coincide.lift _).bind fun current => .ite ?_ (.pure _)
  refine (coincide_round hbodies).bind fun goesOn => .ite ?_ (.pure _)
  exact (Coincide.get name).bind fun _ => (Coincide.lift _).bind fun _ => (Coincide.set hname _).map

omit hvalues hbound in
theorem coincide_items {name : String} (hname : name ∈ names) (items : List Value) : Coincide names
    ((b.runParts limit).executeItems name items) ((b.storeParts limit).itemsGlobal name items) := by
  induction items with
  | nil => exact .pure ()
  | cons item rest ih =>
    exact (Coincide.set hname item).bind fun _ => (coincide_round hbodies).bind fun _ =>
      .ite ih (.pure ())

theorem coincide_forEach :
    Coincide names (b.runParts limit).executeForEach (b.storeParts limit).forEachGlobal :=
  coincide_variable hbound fun _ hname => (coincide_evaluate hvalues "LIST").bind fun _ =>
    (Coincide.lift _).bind fun items => .inLoop (coincide_items hbodies hname items)

theorem coincide_kind : Coincide names (b.kind.evaluate limit (b.runParts limit))
    (b.kind.evaluateGlobal limit (b.storeParts limit)) := by
  cases b.kind with
  | branch alwaysElse => exact (coincide_branch hbodies hvalues alwaysElse).map
  | repeatTimes source => exact (coincide_repeat hbodies hvalues source).map
  | whileUntil => exact .lift_bind fun mode _ => (coincide_whileUntil hbodies hvalues mode).map
  | countRange => exact (coincide_range hbodies hvalues hbound).map
  | forEach => exact (coincide_forEach hbodies hvalues hbound).map
  | flow => exact Coincide.map (.lift_bind fun escape _ => .raise escape)
  | boolean => exact (Coincide.lift _).map
  | null => exact .pure _
  | not => exact (coincide_condition hvalues "BOOL").map
  | compare =>
    exact .lift_bind fun _ _ => (coincide_evaluate hvalues "A").bind fun _ =>
      (coincide_evaluate hvalues "B").bind fun _ => (Coincide.lift _).map
  | junction => exact .lift_bind fun junction _ => coincide_junction hvalues junction
  | ternary => exact coincide_ternary hvalues
  | number => exact .lift_bind fun _ _ => (Coincide.lift _).map
  | arithmetic =>
    exact .lift_bind fun _ _ => (coincide_number hvalues "A").bind fun _ =>
      (coincide_number hvalues "B").map
  | function => exact .lift_bind fun _ _ => (coincide_number hvalues "NUM").map
  | round => exact .lift_bind fun _ _ => (coincide_number hvalues "NUM").map
  | constant => exact (Coincide.lift _).map
  | property => exact .lift_bind fun property _ => coincide_property hvalues property
  | modulo =>
    exact (coincide_number hvalues "DIVIDEND").bind fun _ => (coincide_number hvalues "DIVISOR").map
  | constrain => exact coincide_constrain hvalues
  | change => exact (coincide_change hvalues hbound).map
  | text => exact (Coincide.lift _).map
  | join => exact .lift_bind fun _ _ => (Coincide.mapM (fun _ => coincide_joined hvalues _) _).map
  | append => exact (coincide_append hvalues hbound).map
  | textLength => exact (coincide_text hvalues "VALUE").map
  | textIsEmpty => exact (coincide_text hvalues "VALUE").map
  | changeCase => exact .lift_bind fun _ _ => (coincide_text hvalues "TEXT").map
  | trim => exact .lift_bind fun _ _ => (coincide_text hvalues "TEXT").map
  | get => exact .lift_bind fun name _ => .get name
  | set => exact (coincide_assign hvalues hbound).map
  | emptyList => exact .pure _
  | createList => exact .lift_bind fun _ _ => (Coincide.mapM (coincide_evaluate hvalues) _).map
  | repeatItem =>
    exact (coincide_evaluate hvalues "ITEM").bind fun _ => (coincide_number hvalues "NUM").bind
      fun _ => .lift _
  | listLength => exact (coincide_evaluate hvalues "VALUE").bind fun _ => (Coincide.lift _).map
  | listIsEmpty => exact (coincide_evaluate hvalues "VALUE").bind fun _ => (Coincide.lift _).map

end

end

/-! ### Chains -/

def Block.Bound (names : List String) (b : Block Kind) : Prop :=
  ∀ name ∈ b.fields.get? "VAR", name ∈ names

instance (names : List String) : DecidablePred (Block.Bound names) := fun b =>
  inferInstanceAs (Decidable (∀ name ∈ b.fields.get? "VAR", name ∈ names))

theorem coincide_chain {names : List String} (limit : Nat) (chain : List (Block Kind))
    (hbound : Block.AllOf (Block.Bound names) chain) :
    Coincide names (evaluateChain limit chain) (evaluateGlobally limit chain) ∧
      Coincide names (evaluateRest limit chain) (@evaluateRest Kind Kind.onStore limit chain) := by
  revert hbound
  refine Block.chain_induction
    (P := fun b => b.All (Block.Bound names) →
      Coincide names (b.evaluate limit) (@Block.evaluate Kind Kind.onStore limit b))
    (Q := fun chain => Block.AllOf (Block.Bound names) chain →
      Coincide names (evaluateChain limit chain) (evaluateGlobally limit chain) ∧
        Coincide names (evaluateRest limit chain) (@evaluateRest Kind Kind.onStore limit chain))
    ?_ ?_ ?_ chain
  · intro b hvalues hbodies hall
    obtain ⟨hb, hvalueBlocks, hbodyBlocks⟩ := Block.all_iff.1 hall
    rw [Block.evaluate_eq, @Block.evaluate_eq Kind Kind.onStore]
    exact coincide_kind (fun s hs => (hbodies s hs (hbodyBlocks s hs)).1)
      (fun s hs => (hvalues s hs (hvalueBlocks s hs)).1) hb
  · exact fun _ => ⟨.pure _, .pure ()⟩
  · intro b rest hb hrest hall
    have hfirst := hb hall.1
    have hothers := (hrest hall.2).2
    refine ⟨hfirst.bind fun v => hothers.bind fun _ => .pure v, ?_⟩
    refine Coincide.bind (.of_kept fun _ hc => hc) fun c => .ite ?_ (.pure ())
    exact hfirst.bind fun _ => hothers

/-- Where the root binds every variable of a chain and no other scope binds a name, the chain runs on
the store of the root, whatever is open above it: each variable is read and assigned there, no scope
above comes to bind a name, and the root binds the same names in the same order. -/
theorem evaluateChain_on_one_store (limit : Nat) {names : List String} {chain : List (Block Kind)}
    (hbound : Block.AllOf (Block.Bound names) chain) {c : Context Value} (hc : c.Global names) :
    outcome (evaluateChain limit chain) c = outcome (evaluateGlobally limit chain) c ∧
      (outcome (evaluateChain limit chain) c).2.Global names := by
  obtain ⟨heq, hkept⟩ := (coincide_chain limit chain hbound).1 c hc
  exact ⟨heq.symm, hkept⟩

def remark : List (Block Kind) :=
  let condition : Block Kind := ⟨.boolean, "logic_boolean", "c", [("BOOL", "TRUE")], [], [], [], []⟩
  let mark : Block Kind := ⟨.text, "text", "t", [("TEXT", "!")], [], [], [], []⟩
  let append : Block Kind :=
    ⟨.append, "text_append", "a", [("VAR", "note")], [⟨"TEXT", [mark]⟩], [], [], []⟩
  [⟨.branch false, "controls_if", "b", [], [⟨"IF0", [condition]⟩], [⟨"DO0", [append]⟩], [], []⟩]

theorem remark_on_one_store :
    let c : Context Value := { inner := [{}, {}], root := { bindings := [("note", .text "no")] } }
    let c' : Context Value := { inner := [{}, {}], root := { bindings := [("note", .text "no!")] } }
    Block.AllOf (Block.Bound ["note"]) remark ∧ c.Global ["note"] ∧
      outcome (evaluateGlobally 1 remark) c = (.ok .null, c') ∧ c'.Global ["note"] := by
  intro c c'
  have hbound : Block.AllOf (Block.Bound ["note"]) remark := by decide
  have hglobal : c.Global ["note"] := ⟨rfl, by decide⟩
  have hrun : outcome (evaluateChain 1 remark) c = (.ok .null, c') := by with_unfolding_all rfl
  obtain ⟨heq, hkept⟩ := evaluateChain_on_one_store 1 hbound hglobal
  rw [hrun] at heq hkept
  exact ⟨hbound, hglobal, heq.symm, hkept⟩

end Blockwork
