import Blockwork.Proofs.Compiler.Temporaries

/-! What a block may do when it is compiled. `CodeSteps` builds the work from the few steps that there
are, and every kind is built from them (`Kind.codeSteps`): so what each step keeps, all kinds keep.
The names that a block declares are that of its field and those that go with its loop, and of the
scopes around it it sees only how many there are. -/

namespace Blockwork

open Target
open Parts (counterName)

/-- The names that a block of the kind declares itself, at some depth. -/
def Kind.brings (k : Kind) (fields : Entries String) (depth : Nat) : List String :=
  match k with
  | .change | .append | .set | .forEach => (fields.get? "VAR").toList
  | .countRange => (fields.get? "VAR").toList.flatMap fun v => v :: rangeNames v
  | .repeatTimes _ => counterNames depth
  | _ => []

def Block.brings (b : Block Kind) (depth : Nat) : List String := b.kind.brings b.fields depth

/-! ### Repetition -/

def countingLoop (counter : String) (bound : Expr) (body : List Stmt) : Stmt :=
  .forLoop (.assign counter (.num 0)) (.binary .less (.variable counter) bound)
    (.assign counter (.binary .add (.variable counter) (.num 1))) body

def boundCode (name : String) (times : Expr) : Compilation (List Stmt × Expr) :=
  if times.isNumber then return ([], times)
  else do
    let e ← Compilation.assign name times
    return ([.expr e], .variable name)

theorem compileRepeat_eq (p : Parts SlotCode) (source : CountSource) : p.compileRepeat source = (do
    let counter := counterName (← MonadState.get).depth
    let times ← p.countCode source
    let (before, bound) ← boundCode (counter ++ "_end") times
    Compilation.declare counter (.num 0)
    let body ← p.compileLoopBody
    return before ++ [countingLoop counter bound body]) := by
  unfold Parts.compileRepeat boundCode
  refine bind_congr fun κ => bind_congr fun times => ?_
  cases times.isNumber <;> simp [countingLoop]

/-! ### The steps -/

namespace Parts

variable {α β : Type}

inductive CodeSteps (p : Parts SlotCode) (k : Kind) (floor : Nat) :
    {α : Type} → Compilation α → Prop where
  | pure {α : Type} (a : α) : CodeSteps p k floor (Pure.pure a : Compilation α)
  | fail {α : Type} (e : EngineError) : CodeSteps p k floor (throw e : Compilation α)
  | bind {α β : Type} {d : Compilation α} {f : α → Compilation β} :
    CodeSteps p k floor d → (∀ a, CodeSteps p k floor (f a)) → CodeSteps p k floor (d >>= f)
  | expression {name : String} {plug : Plug SlotCode} :
    (name, plug) ∈ p.values → CodeSteps p k floor plug.meaning.expression
  | statements {name : String} {plug : Plug SlotCode} :
    (name, plug) ∈ p.statements → CodeSteps p k floor plug.meaning.statements
  | declare {depth : Nat} {name : String} (e : Expr) :
    floor ≤ depth → name ∈ k.brings p.fields depth → CodeSteps p k floor (Compilation.declare name e)
  | atDepth {α : Type} {f : Context Expr → Compilation α} :
    (∀ κ κ', κ.depth = κ'.depth → f κ = f κ') →
      (∀ κ, floor ≤ κ.depth → CodeSteps p k floor (f κ)) → CodeSteps p k floor (MonadState.get >>= f)
  | inBranch {α : Type} {d : Compilation α} :
    CodeSteps p k floor d → CodeSteps p k floor (Traversal.inBranch d)
  | inLoop {α : Type} {d : Compilation α} :
    CodeSteps p k floor d → CodeSteps p k floor (Traversal.inLoop d)

namespace CodeSteps

variable {p : Parts SlotCode} {k : Kind} {floor : Nat}

theorem lift (x : Except EngineError α) : p.CodeSteps k floor (liftM x : Compilation α) := by
  cases x with
  | error e => exact .fail e
  | ok a => exact .pure a

theorem liftThen {x : Except EngineError α} {f : α → Compilation β}
    (h : ∀ a, x = .ok a → p.CodeSteps k floor (f a)) : p.CodeSteps k floor (liftM x >>= f) := by
  cases x with
  | error e => exact .fail e
  | ok a => exact h a rfl

theorem map {f : α → β} {d : Compilation α} (h : p.CodeSteps k floor d) :
    p.CodeSteps k floor (f <$> d) :=
  h.bind fun _ => .pure _

theorem mapM {f : α → Compilation β} (h : ∀ a, p.CodeSteps k floor (f a)) (as : List α) :
    p.CodeSteps k floor (as.mapM f) := by
  induction as with
  | nil => exact .pure []
  | cons a rest ih =>
    rw [List.mapM_cons]
    exact (h a).bind fun _ => ih.bind fun _ => .pure _

theorem assign {depth : Nat} {name : String} (e : Expr) (hdepth : floor ≤ depth)
    (hname : name ∈ k.brings p.fields depth) : p.CodeSteps k floor (Compilation.assign name e) :=
  (CodeSteps.declare e hdepth hname).bind fun _ => .pure _

/-! ### Expressions -/

theorem valueThen {name : String} {f : Plug SlotCode → Compilation α}
    (h : ∀ plug, (name, plug) ∈ p.values → p.CodeSteps k floor (f plug)) :
    p.CodeSteps k floor (liftM (p.value name) >>= f) := by
  unfold Parts.value
  cases hl : p.values.lookup name with
  | none => exact .fail (p.missing .value name)
  | some plug => exact h plug (mem_of_lookup hl)

theorem compile (name : String) : p.CodeSteps k floor (p.compile name) :=
  valueThen fun _ h => .expression h

theorem compileText (name : String) : p.CodeSteps k floor (p.compileText name) :=
  (compile name).map

theorem compileFilled (slots : List String) : p.CodeSteps k floor (p.compileFilled slots) := by
  induction slots with
  | nil => exact .pure []
  | cons name rest ih =>
    refine valueThen fun plug h => ?_
    split
    · exact (CodeSteps.expression h).bind fun _ => ih.bind fun _ => .pure _
    · exact ih

theorem compileProperty (property : Property) : p.CodeSteps k floor (p.compileProperty property) := by
  refine (compile _).bind fun e => ?_
  cases property with
  | prime => exact .fail _
  | divisible => exact (compile _).bind fun _ => .pure _
  | _ => exact .pure _

theorem compileConstrain : p.CodeSteps k floor p.compileConstrain :=
  (compile _).bind fun _ => (compile _).bind fun _ => (compile _).bind fun _ => .pure _

theorem countCode (source : CountSource) : p.CodeSteps k floor (p.countCode source) := by
  cases source with
  | input => exact compile _
  | field => exact (lift _).bind fun _ => (lift _).bind fun _ => .pure _

section

variable (hk : ∀ name, p.variable = .ok name → name ∈ k.brings p.fields floor)
include hk

theorem compileChange : p.CodeSteps k floor p.compileChange :=
  liftThen fun name hname => (compile _).bind fun _ => assign _ le_rfl (hk name hname)

theorem compileAppend : p.CodeSteps k floor p.compileAppend :=
  liftThen fun name hname => (compileText _).bind fun _ => assign _ le_rfl (hk name hname)

theorem compileSet : p.CodeSteps k floor p.compileSet :=
  liftThen fun name hname => (compile _).bind fun _ => assign _ le_rfl (hk name hname)

end

/-! ### Branches and loops -/

theorem compileBody (name : String) : p.CodeSteps k floor (p.compileBody name) := by
  unfold Parts.compileBody
  split
  · exact .pure []
  · exact .statements (mem_of_lookup ‹_›)

theorem compileLoopBody : p.CodeSteps k floor p.compileLoopBody := (compileBody "DO").inLoop

theorem compileArms (arms : List Nat) : p.CodeSteps k floor (p.compileArms arms) := by
  induction arms with
  | nil => exact .pure []
  | cons i rest ih =>
    exact (compile _).bind fun _ => (compileBody _).inBranch.bind fun _ => ih.bind fun _ => .pure _

theorem compileBranch (alwaysElse : Bool) : p.CodeSteps k floor (p.compileBranch alwaysElse) := by
  refine (lift _).bind fun arms => (compileArms _).bind fun _ => ?_
  split
  · exact (compileBody _).inBranch.bind fun _ => .pure _
  · exact .pure _

theorem boundCode {depth : Nat} {name : String} (times : Expr) (hdepth : floor ≤ depth)
    (hname : name ∈ k.brings p.fields depth) : p.CodeSteps k floor (boundCode name times) := by
  unfold Blockwork.boundCode
  split
  · exact .pure _
  · exact (assign _ hdepth hname).bind fun _ => .pure _

theorem compileRepeat (source : CountSource)
    (hk : ∀ depth, k.brings p.fields depth = counterNames depth) :
    p.CodeSteps k floor (p.compileRepeat source) := by
  rw [compileRepeat_eq]
  refine .atDepth (fun κ κ' h => by rw [h]) fun κ hdepth => ?_
  have hbrings : ∀ name ∈ counterNames κ.depth, name ∈ k.brings p.fields κ.depth := fun name h => by
    rwa [hk]
  refine (countCode source).bind fun times => ?_
  refine (boundCode times hdepth (hbrings _ (by simp [counterNames]))).bind fun code => ?_
  refine (CodeSteps.declare _ hdepth (hbrings _ (by simp [counterNames]))).bind fun _ => ?_
  exact compileLoopBody.bind fun _ => .pure _

theorem compileWhileUntil (mode : LoopMode) : p.CodeSteps k floor (p.compileWhileUntil mode) :=
  (compile _).bind fun _ => compileLoopBody.bind fun _ => .pure _

theorem compileRange (hk : ∀ name, p.variable = .ok name →
      ∀ other ∈ name :: rangeNames name, other ∈ k.brings p.fields floor) :
    p.CodeSteps k floor p.compileRange := by
  refine liftThen fun name hname => ?_
  have hdeclare : ∀ (other : String) (e : Expr), other ∈ name :: rangeNames name →
      p.CodeSteps k floor (Compilation.declare other e) := fun other e h =>
    .declare e le_rfl (hk name hname other h)
  refine (compile _).bind fun _ => (compile _).bind fun _ => (compile _).bind fun _ => ?_
  refine (hdeclare _ _ (by simp [rangeNames])).bind fun _ => ?_
  refine (hdeclare _ _ (by simp [rangeNames])).bind fun _ => ?_
  refine (hdeclare _ _ (by simp [rangeNames])).bind fun _ => ?_
  refine (hdeclare _ _ (List.mem_cons_self ..)).bind fun _ => ?_
  exact compileLoopBody.bind fun _ => .pure _

theorem compileForEach (hk : ∀ name, p.variable = .ok name → name ∈ k.brings p.fields floor) :
    p.CodeSteps k floor p.compileForEach :=
  liftThen fun name hname => (compile _).bind fun _ =>
    (CodeSteps.declare _ le_rfl (hk name hname)).bind fun _ => compileLoopBody.bind fun _ => .pure _

theorem compileFlow : p.CodeSteps k floor p.compileFlow := by
  refine (lift _).bind fun escape => ?_
  cases escape <;> exact .pure _

end CodeSteps
end Parts

open Parts in
theorem Kind.codeSteps (p : Parts SlotCode) (k : Kind) (floor : Nat) :
    p.CodeSteps k floor (k.compile p) := by
  have hvariable : ∀ name, p.variable = .ok name → name ∈ (p.fields.get? "VAR").toList :=
    fun name hname => Option.mem_toList.2 (field_eq_ok.1 hname)
  cases k with
  | branch alwaysElse => exact (CodeSteps.compileBranch alwaysElse).map
  | repeatTimes source => exact (CodeSteps.compileRepeat source fun _ => rfl).map
  | whileUntil =>
    exact (CodeSteps.lift _).bind fun mode => (CodeSteps.compileWhileUntil mode).bind fun _ => .pure _
  | countRange =>
    refine (CodeSteps.compileRange fun name hname other hother => ?_).map
    exact List.mem_flatMap.2 ⟨name, hvariable name hname, hother⟩
  | forEach => exact (CodeSteps.compileForEach hvariable).map
  | flow => exact CodeSteps.compileFlow.map
  | null | emptyList => exact .pure _
  | boolean | constant | text | get => exact (CodeSteps.lift _).bind fun _ => .pure _
  | number => exact (CodeSteps.lift _).bind fun _ => (CodeSteps.lift _).bind fun _ => .pure _
  | not | listLength | listIsEmpty => exact (CodeSteps.compile _).bind fun _ => .pure _
  | compare | junction | arithmetic =>
    exact (CodeSteps.lift _).bind fun _ => (CodeSteps.compile _).bind fun _ =>
      (CodeSteps.compile _).bind fun _ => .pure _
  | ternary =>
    exact (CodeSteps.compile _).bind fun _ => (CodeSteps.compile _).bind fun _ =>
      (CodeSteps.compile _).bind fun _ => .pure _
  | function | round =>
    exact (CodeSteps.lift _).bind fun _ => (CodeSteps.compile _).bind fun _ => .pure _
  | property =>
    exact (CodeSteps.lift _).bind fun property =>
      (CodeSteps.compileProperty property).bind fun _ => .pure _
  | modulo | repeatItem =>
    exact (CodeSteps.compile _).bind fun _ => (CodeSteps.compile _).bind fun _ => .pure _
  | constrain => exact CodeSteps.compileConstrain.map
  | change => exact (CodeSteps.compileChange hvariable).map
  | append => exact (CodeSteps.compileAppend hvariable).map
  | set => exact (CodeSteps.compileSet hvariable).map
  | join => exact (CodeSteps.lift _).bind fun _ => (CodeSteps.compileFilled _).bind fun _ => .pure _
  | textLength | textIsEmpty => exact (CodeSteps.compileText _).bind fun _ => .pure _
  | changeCase | trim =>
    exact (CodeSteps.lift _).bind fun _ => (CodeSteps.compileText _).bind fun _ => .pure _
  | createList =>
    exact (CodeSteps.lift _).bind fun _ =>
      (CodeSteps.mapM (fun _ => CodeSteps.compile _) _).bind fun _ => .pure _

end Blockwork
