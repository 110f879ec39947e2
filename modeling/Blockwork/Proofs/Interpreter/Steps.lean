import Blockwork.Proofs.Block.Induction

/-! What a block may do when it runs. `Steps` builds a run from the few steps that there are, and
every kind is built from them (`Kind.steps`): so what each step keeps, all kinds keep. The only
variable that a block itself reads or assigns is that of its field. -/

namespace Blockwork

inductive Reach where
  | reading
  | assigning
  | steering
deriving DecidableEq

def Kind.reach : Kind → Reach
  | .branch _ | .repeatTimes _ | .whileUntil | .countRange | .forEach | .flow => .steering
  | .change | .append | .set => .assigning
  | _ => .reading

def Kind.isValue (k : Kind) : Bool := k.reach = .reading

namespace Parts

inductive Steps (p : Parts (Run Value)) (r : Reach) : {α : Type} → Run α → Prop where
  | pure {α : Type} (a : α) : Steps p r (Pure.pure a : Run α)
  | fail {α : Type} (h : Halt) : Steps p r (throw h : Run α)
  | bind {α β : Type} {m : Run α} {f : α → Run β} :
    Steps p r m → (∀ a, Steps p r (f a)) → Steps p r (m >>= f)
  | get (name : String) : p.variable = .ok name → Steps p r (Run.get name)
  | value {name : String} {plug : Plug (Run Value)} :
    (name, plug) ∈ p.values → Steps p r plug.meaning
  | set (name : String) (v : Value) :
    r ≠ .reading → p.variable = .ok name → Steps p r (Run.set name v)
  | statement {name : String} {plug : Plug (Run Value)} :
    r = .steering → (name, plug) ∈ p.statements → Steps p r plug.meaning
  | raise (e : Escape) : r = .steering → Steps p r (modify fun c => c.setEscape e)
  | takeEscape : r = .steering → Steps p r Traversal.takeEscape
  | inBranch {α : Type} {m : Run α} :
    r = .steering → Steps p r m → Steps p r (Traversal.inBranch m)
  | inLoop {α : Type} {m : Run α} :
    r = .steering → Steps p r m → Steps p r (Traversal.inLoop m)
  | iterate {σ : Type} {step : σ → Run (Option σ)} (limit : Nat) (s : σ) :
    r = .steering → (∀ s, Steps p r (step s)) → Steps p r (Run.iterate step limit s)

namespace Steps

variable {p : Parts (Run Value)} {r : Reach} {α β : Type}

theorem lift (x : Except EngineError α) : p.Steps r (liftM x : Run α) := by
  cases x with
  | error e => exact .fail (.error e)
  | ok a => exact .pure a

theorem liftThen {x : Except EngineError α} {f : α → Run β}
    (h : ∀ a, x = .ok a → p.Steps r (f a)) : p.Steps r (liftM x >>= f) := by
  cases x with
  | error e => exact .fail (.error e)
  | ok a => exact h a rfl

theorem map {f : α → β} {m : Run α} (h : p.Steps r m) : p.Steps r (f <$> m) :=
  h.bind fun _ => .pure _

theorem mapM {f : α → Run β} (h : ∀ a, p.Steps r (f a)) (as : List α) : p.Steps r (as.mapM f) := by
  induction as with
  | nil => exact .pure []
  | cons a rest ih =>
    rw [List.mapM_cons]
    exact (h a).bind fun _ => ih.bind fun _ => .pure _

theorem ite {c : Prop} [Decidable c] {m m' : Run α} (h : p.Steps r m) (h' : p.Steps r m') :
    p.Steps r (if c then m else m') := by
  split
  · exact h
  · exact h'

/-! ### Values -/

theorem valueThen {name : String} {f : Plug (Run Value) → Run α}
    (h : ∀ plug, (name, plug) ∈ p.values → p.Steps r (f plug)) :
    p.Steps r (liftM (p.value name) >>= f) := by
  unfold Parts.value
  cases hl : p.values.lookup name with
  | none => exact .fail (.error (p.missing .value name))
  | some plug => exact h plug (mem_of_lookup hl)

theorem evaluate (name : String) : p.Steps r (p.evaluate name) :=
  valueThen fun _ h => .value h

theorem evaluateCondition (name : String) : p.Steps r (p.evaluateCondition name) :=
  (evaluate name).bind fun _ => lift _

theorem evaluateNumber (name : String) : p.Steps r (p.evaluateNumber name) :=
  (evaluate name).bind fun _ => lift _

theorem evaluateText (name : String) : p.Steps r (p.evaluateText name) :=
  (evaluate name).map

theorem joinedText (name : String) : p.Steps r (p.joinedText name) := by
  refine valueThen fun plug h => ?_
  split
  · exact (Steps.value h).map
  · exact .pure ""

theorem evaluateJunction (junction : Junction) : p.Steps r (p.evaluateJunction junction) := by
  refine (evaluateCondition "A").bind fun first => ?_
  split
  · exact (evaluateCondition "B").map
  · exact (evaluateCondition "B").map
  · exact .pure _

theorem evaluateTernary : p.Steps r p.evaluateTernary := by
  refine (evaluateCondition "IF").bind fun decided => ?_
  split
  · exact evaluate "THEN"
  · exact evaluate "ELSE"

theorem evaluateProperty (property : Property) : p.Steps r (p.evaluateProperty property) := by
  refine (evaluateNumber "NUMBER_TO_CHECK").bind fun x => ?_
  split
  · exact (evaluateNumber "DIVISOR").map
  · exact .pure _

theorem evaluateConstrain : p.Steps r p.evaluateConstrain :=
  (evaluateNumber "VALUE").bind fun _ => (evaluateNumber "LOW").bind fun _ =>
    (evaluateNumber "HIGH").map

/-! ### Assignments -/

theorem executeChange (hr : r ≠ .reading) : p.Steps r p.executeChange := by
  refine liftThen fun name hname => (evaluateNumber "DELTA").bind fun delta => ?_
  refine (Steps.get name hname).bind fun current => ?_
  split
  · exact .set _ _ hr hname
  · exact (lift _).bind fun x => .set _ _ hr hname

theorem executeAppend (hr : r ≠ .reading) : p.Steps r p.executeAppend :=
  liftThen fun name hname => (evaluateText "TEXT").bind fun _ =>
    (Steps.get name hname).bind fun _ => .set _ _ hr hname

theorem executeSet (hr : r ≠ .reading) : p.Steps r p.executeSet :=
  liftThen fun _ hname => (evaluate "VALUE").bind fun _ => .set _ _ hr hname

/-! ### Branches and loops -/

theorem repeatCount (source : CountSource) : p.Steps r (p.repeatCount source) := by
  cases source with
  | input => exact evaluateNumber "TIMES"
  | field => exact (lift _).bind fun _ => (lift _).map

section

variable (hr : r = .steering)
include hr

theorem execute (name : String) : p.Steps r (p.execute name) := by
  unfold Parts.execute
  split
  · exact .pure ()
  · exact (Steps.statement hr (mem_of_lookup ‹_›)).map

theorem executeArms (hasElse : Bool) (arms : List Nat) : p.Steps r (p.executeArms hasElse arms) := by
  induction arms with
  | nil =>
    unfold Parts.executeArms
    split
    · exact .inBranch hr (execute hr "ELSE")
    · exact .pure ()
  | cons i rest ih =>
    refine (evaluateCondition (numbered "IF" i)).bind fun decided => ?_
    split
    · exact .inBranch hr (execute hr (numbered "DO" i))
    · exact ih

theorem executeBranch (alwaysElse : Bool) : p.Steps r (p.executeBranch alwaysElse) :=
  (lift _).bind fun _ => executeArms hr _ _

theorem executeRound : p.Steps r p.executeRound :=
  (execute hr "DO").bind fun _ => (Steps.takeEscape hr).map

theorem executeRepeat (limit : Nat) (source : CountSource) :
    p.Steps r (p.executeRepeat limit source) := by
  refine (repeatCount source).bind fun times => .inLoop hr (.iterate limit _ hr fun count => ?_)
  split
  · refine (executeRound hr).bind fun goesOn => ?_
    split <;> exact .pure _
  · exact .pure none

theorem executeWhileUntil (limit : Nat) (mode : LoopMode) :
    p.Steps r (p.executeWhileUntil limit mode) := by
  cases mode with
  | repeatWhile =>
    refine .inLoop hr (.iterate limit () hr fun _ => ?_)
    refine (evaluateCondition "BOOL").bind fun decided => ?_
    split
    · refine (executeRound hr).bind fun goesOn => ?_
      split <;> exact .pure _
    · exact .pure none
  | repeatUntil =>
    refine .inLoop hr (.iterate limit () hr fun _ => ?_)
    refine (evaluateCondition "BOOL").bind fun decided => ?_
    split
    · exact .pure none
    · exact (execute hr "DO").map

theorem executeRange (limit : Nat) : p.Steps r (p.executeRange limit) := by
  refine liftThen fun name hname => (evaluateNumber "FROM").bind fun first => ?_
  have hset : ∀ v, p.Steps r (Run.set name v) := fun v => .set name v (by simp [hr]) hname
  refine (evaluateNumber "TO").bind fun last => (evaluateNumber "BY").bind fun size => ?_
  refine .inLoop hr ((hset _).bind fun _ => .iterate limit () hr fun _ => ?_)
  refine (Steps.get name hname).bind fun current => (lift _).bind fun x => .ite ?_ (.pure none)
  refine (executeRound hr).bind fun goesOn => .ite ?_ (.pure none)
  exact (Steps.get name hname).bind fun current => (lift _).bind fun x => (hset _).map

theorem executeItems {name : String} (hname : p.variable = .ok name) (items : List Value) :
    p.Steps r (p.executeItems name items) := by
  induction items with
  | nil => exact .pure ()
  | cons item rest ih =>
    refine (Steps.set name item (by simp [hr]) hname).bind fun _ => ?_
    refine (executeRound hr).bind fun goesOn => ?_
    split
    · exact ih
    · exact .pure ()

theorem executeForEach : p.Steps r p.executeForEach :=
  liftThen fun _ hname => (evaluate "LIST").bind fun _ => (lift _).bind fun _ =>
    .inLoop hr (executeItems hr hname _)

theorem executeFlow : p.Steps r p.executeFlow :=
  (lift _).bind fun escape => .raise escape hr

end

end Steps
end Parts

open Parts in
theorem Kind.steps (limit : Nat) (p : Parts (Run Value)) (k : Kind) :
    p.Steps k.reach (k.evaluate limit p) := by
  cases k with
  | branch alwaysElse => exact (Steps.executeBranch rfl alwaysElse).map
  | repeatTimes source => exact (Steps.executeRepeat rfl limit source).map
  | whileUntil => exact (Steps.lift _).bind fun mode => (Steps.executeWhileUntil rfl limit mode).map
  | countRange => exact (Steps.executeRange rfl limit).map
  | forEach => exact (Steps.executeForEach rfl).map
  | flow => exact (Steps.executeFlow rfl).map
  | boolean => exact (Steps.lift _).map
  | null => exact .pure _
  | not => exact (Steps.evaluateCondition "BOOL").map
  | compare =>
    exact (Steps.lift _).bind fun _ => (Steps.evaluate "A").bind fun _ =>
      (Steps.evaluate "B").bind fun _ => (Steps.lift _).map
  | junction => exact (Steps.lift _).bind fun junction => Steps.evaluateJunction junction
  | ternary => exact Steps.evaluateTernary
  | number => exact (Steps.lift _).bind fun _ => (Steps.lift _).map
  | arithmetic =>
    exact (Steps.lift _).bind fun _ => (Steps.evaluateNumber "A").bind fun _ =>
      (Steps.evaluateNumber "B").map
  | function => exact (Steps.lift _).bind fun _ => (Steps.evaluateNumber "NUM").map
  | round => exact (Steps.lift _).bind fun _ => (Steps.evaluateNumber "NUM").map
  | constant => exact (Steps.lift _).map
  | property => exact (Steps.lift _).bind fun property => Steps.evaluateProperty property
  | modulo =>
    exact (Steps.evaluateNumber "DIVIDEND").bind fun _ => (Steps.evaluateNumber "DIVISOR").map
  | constrain => exact Steps.evaluateConstrain
  | change => exact (Steps.executeChange (by decide)).map
  | text => exact (Steps.lift _).map
  | join => exact (Steps.lift _).bind fun _ => (Steps.mapM (fun _ => Steps.joinedText _) _).map
  | append => exact (Steps.executeAppend (by decide)).map
  | textLength => exact (Steps.evaluateText "VALUE").map
  | textIsEmpty => exact (Steps.evaluateText "VALUE").map
  | changeCase => exact (Steps.lift _).bind fun _ => (Steps.evaluateText "TEXT").map
  | trim => exact (Steps.lift _).bind fun _ => (Steps.evaluateText "TEXT").map
  | get => exact Steps.liftThen fun name hname => .get name hname
  | set => exact (Steps.executeSet (by decide)).map
  | emptyList => exact .pure _
  | createList => exact (Steps.lift _).bind fun _ => (Steps.mapM Steps.evaluate _).map
  | repeatItem =>
    exact (Steps.evaluate "ITEM").bind fun _ => (Steps.evaluateNumber "NUM").bind fun _ =>
      Steps.lift _
  | listLength => exact (Steps.evaluate "VALUE").bind fun _ => (Steps.lift _).map
  | listIsEmpty => exact (Steps.evaluate "VALUE").bind fun _ => (Steps.lift _).map

/-! ### Chains -/

/-- A property of runs that goes through binds and through the look at the pending escape is one of
chains if it is one of blocks. -/
theorem evaluateChain_of_blocks {C : {α : Type} → Run α → Prop} {P : Block Kind → Prop} {limit : Nat}
    (pure : ∀ {α : Type} (a : α), C (Pure.pure a : Run α))
    (bind : ∀ {α β : Type} {m : Run α} {f : α → Run β}, C m → (∀ a, C (f a)) → C (m >>= f))
    (poll : ∀ {m : Run Unit}, C m →
      C (MonadState.get >>= fun c : Context Value => if c.escape = .none then m else Pure.pure ()))
    (block : ∀ b, P b → (∀ e ∈ (b.runParts limit).values, C e.2.meaning) →
      (∀ e ∈ (b.runParts limit).statements, C e.2.meaning) →
      C (b.kind.evaluate limit (b.runParts limit)))
    {chain : List (Block Kind)} (h : Block.AllOf P chain) :
    C (evaluateChain limit chain) ∧ C (evaluateRest limit chain) := by
  revert h
  refine Block.chain_induction (P := fun b => b.All P → C (b.evaluate limit))
    (Q := fun chain => Block.AllOf P chain →
      C (evaluateChain limit chain) ∧ C (evaluateRest limit chain)) ?_ ?_ ?_ chain
  · intro b hvalues hbodies hall
    obtain ⟨hb, hvalueBlocks, hbodyBlocks⟩ := Block.all_iff.1 hall
    rw [Block.evaluate_eq]
    refine block b hb ?_ ?_
    · rw [Block.values_runParts, List.forall_mem_map]
      exact fun s hs => (hvalues s hs (hvalueBlocks s hs)).1
    · rw [Block.statements_runParts, List.forall_mem_map]
      exact fun s hs => (hbodies s hs (hbodyBlocks s hs)).1
  · exact fun _ => ⟨pure _, pure ()⟩
  · intro b rest hb hrest hall
    have hfirst := hb hall.1
    have hothers := (hrest hall.2).2
    refine ⟨bind hfirst fun v => bind hothers fun _ => pure v, poll ?_⟩
    exact bind hfirst fun _ => hothers

theorem evaluateFrom_of_chains {C : {α : Type} → Run α → Prop} {limit : Nat}
    (pure : ∀ {α : Type} (a : α), C (Pure.pure a : Run α))
    (bind : ∀ {α β : Type} {m : Run α} {f : α → Run β}, C m → (∀ a, C (f a)) → C (m >>= f))
    (takeEscape : C (Traversal.takeEscape : Run Escape)) {chains : List (List (Block Kind))}
    (h : ∀ chain ∈ chains, C (evaluateChain limit chain)) (last : Value) :
    C (Workspace.evaluateFrom limit last chains) := by
  induction chains generalizing last with
  | nil => exact pure last
  | cons chain rest ih =>
    rw [List.forall_mem_cons] at h
    exact bind h.1 fun v => bind takeEscape fun _ => ih h.2 v

end Blockwork
