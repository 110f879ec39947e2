import Blockwork.Proofs.Compiler.Loops

/-! Loops that count. Their counters and bounds are variables of the program alone: the run has them
in the state of the loop. -/

namespace Blockwork

open Target Structured
open Parts (counterName)

variable {names : List String} {limit : Nat}

/-! ### Comparisons of numbers -/

section

variable (x y : Float)

theorem truthy_less :
    (BinaryOp.less.apply (.number x) (.number y)).truthy = decide (x < y) :=
  decide_eq_decide.2 (Order.ofFloats_less x y)

theorem truthy_greater :
    (BinaryOp.greater.apply (.number x) (.number y)).truthy = decide (x > y) :=
  decide_eq_decide.2 (Order.ofFloats_greater x y)

theorem truthy_lessOrEqual :
    (BinaryOp.lessOrEqual.apply (.number x) (.number y)).truthy = decide (x ≤ y) := by
  rw [← decide_eq_decide.2 (Order.ofFloats_le x y), Bool.decide_or]
  rfl

theorem truthy_greaterOrEqual :
    (BinaryOp.greaterOrEqual.apply (.number x) (.number y)).truthy = decide (x ≥ y) := by
  rw [← decide_eq_decide.2 (Order.ofFloats_ge x y), Bool.decide_or]
  rfl

end

section

variable {b : Block Kind} {κ κ₁ : Context Expr} {stmts : List Stmt}
  (hbodies : ∀ s ∈ b.statements, ChainSimulated limit names s.chain)
  (hslots : ∀ (c : Context Value), ∀ s ∈ b.values,
    Mirrors c (Computes names c) (evaluateChain limit s.chain) (compileExpression s.chain))

/-! ### Repetition -/

include hslots in
theorem evaluates_count {source : CountSource} {times : Expr}
    (h : outcome (b.codeParts.countCode source) κ = (.ok times, κ₁)) :
    Evaluates names (fun x w => w = .number x) ((b.runParts limit).repeatCount source) times := by
  cases source with
  | input => exact evaluates_number hslots h
  | field =>
    refine Mirrors.evaluates (fun c => ?_) h
    exact .lift fun _ _ => .lift fun n _ => .pure ⟨_, rfl, fun _ _ => rfl⟩

def Bodies.countStep (bodies : Bodies) (times count : Float) : Structured (Option Float) := do
  if count < times then
    if ← bodies.round then return some (count + 1.0) else return none
  else return none

def FixedBy (name : String) (times : Float) (bound : Expr) : Prop :=
  ∀ σ σ' : Store, bound.eval σ = some (.number times, σ) → σ'.get? name = σ.get? name →
    bound.eval σ' = some (.number times, σ')

structure HasCount (counter : String) (bound : Expr) (times count : Float) (σ : Store) : Prop where
  count : σ.get? counter = some (.number count)
  bound : bound.eval σ = some (.number times, σ)

theorem end_ne_counter (depth : Nat) : counterName depth ++ "_end" ≠ counterName depth :=
  (counterName_ne_append depth _ (x := 'd') rfl rfl).symm

theorem HasCount.put {depth : Nat} {bound : Expr} {times : Float}
    (hfixed : FixedBy (counterName depth ++ "_end") times bound) {σ : Store}
    (h : bound.eval σ = some (.number times, σ)) (count : Float) :
    HasCount (counterName depth) bound times count (σ.put (counterName depth) (.number count)) :=
  ⟨Entries.get?_put_self .., hfixed σ _ h (Entries.get?_put_of_ne _ _ (end_ne_counter depth))⟩

theorem not_free_counter (depth : Nat) (ranges : List String) :
    ¬ Free names depth ranges (counterName depth) := fun h =>
  h.counters depth (Nat.le_refl _) (List.mem_cons_self ..)

section

variable {depth : Nat} {ranges : List String} {bodies : Bodies} {body : List Stmt} {bound : Expr}
  {times : Float} (hround : Simulates limit names (Free names (depth + 1) ranges) id body
    (bodies.run "DO"))
  (hunbound : ∀ name ∈ counterNames depth, name ∉ names)
  (hranges : ∀ v ∈ ranges, v ≠ counterName depth)
  (hfixed : FixedBy (counterName depth ++ "_end") times bound)

include hround hunbound hranges hfixed

theorem turns_countStep : Turns names (Free names depth ranges)
    (HasCount (counterName depth) bound times) (bodies.countStep times)
    (turn (Expr.binary .less (.variable (counterName depth)) bound).eval
      (fun σ => execBody limit body σ)
      (fun σ => ((Expr.assign (counterName depth)
        (.binary .add (.variable (counterName depth)) (.num 1))).eval σ).map Prod.snd)) := by
  -- the body is compiled one scope deeper, so counter and bound have their values after it
  have hkept : ∀ name ∈ counterNames depth, Free names (depth + 1) ranges name := fun name hname =>
    .of_counter hname (hunbound name hname) hranges
  have hcounter : counterName depth ∈ counterNames depth := List.mem_cons_self ..
  have hend : counterName depth ++ "_end" ∈ counterNames depth :=
    List.mem_cons_of_mem _ (List.mem_cons_self ..)
  rintro count s x s' σ hr hσ ⟨hvalue, hbound⟩
  have hcondition := eval_binary (eval_variable hvalue)
    (rfl : BinaryOp.less.decides _ = false) hbound
  refine turn_of_round hround Free.deeper hcondition (truthy_less count times) hσ ?_ hr
  intro s₂ x s₃ σ₁ hpure hσ₁ hkeeps
  obtain ⟨rfl, rfl⟩ := pure_eq_ok.1 hpure
  have hvalue₁ := (hkeeps _ (hkept _ hcounter)).trans hvalue
  have hbound₁ := hfixed σ σ₁ hbound (hkeeps _ (hkept _ hend))
  have hsum := eval_binary (eval_variable hvalue₁) (rfl : BinaryOp.add.decides _ = false)
    (eval_num 1 σ₁)
  exact ⟨count + 1.0, _, rfl, congrArg (Option.map Prod.snd) (eval_assign hsum),
    hσ₁.put (hunbound _ hcounter) _, .put (not_free_counter depth ranges) _, .put hfixed hbound₁ _⟩

theorem exec_countingLoop {s s' : Scopes Value} {σ : Store}
    (hr : outcome (inScope (iterate (bodies.countStep times) limit 0.0)) s = (.ok (), s'))
    (hσ : Agrees names s σ) (htimes : bound.eval σ = some (.number times, σ)) :
    ∃ σ', (countingLoop (counterName depth) bound body).exec limit σ = some (.none, σ') ∧
      Agrees names s' σ' ∧ Keeps (Free names depth ranges) σ σ' := by
  obtain ⟨s₁, hloop, rfl⟩ := inScope_eq_ok hr
  obtain ⟨σ', hexec, hσ', hkeeps⟩ := turns_of_iterate
    (turns_countStep hround hunbound hranges hfixed) hloop
    (hσ.push.put (hunbound _ (List.mem_cons_self ..)) (.number 0)) (.put hfixed htimes 0)
  have hstart : Keeps (Free names depth ranges) σ (σ.put (counterName depth) (.number 0)) :=
    .put (not_free_counter depth ranges) _
  exact ⟨σ', exec_forLoop (eval_assign (eval_num 0 σ)) hexec, hσ'.pop, hstart.trans hkeeps⟩

end

theorem level_boundCode (name : String) (times : Expr) : Level (boundCode name times) := by
  unfold boundCode
  split
  · exact (Writes.pure _).level
  · exact (((Writes.declare name times).bind fun _ => .pure _).bind fun _ => .pure _).level

theorem exec_bound {times bound : Expr} {before : List Stmt} {name : String}
    (h : outcome (boundCode name times) κ = (.ok (before, bound), κ₁))
    {x : Float} {σ : Store} (hx : times.eval σ = some (.number x, σ)) :
    ∃ σ₀, execBody limit before σ = some (.none, σ₀) ∧ (σ₀ = σ ∨ σ₀ = σ.put name (.number x)) ∧
      bound.eval σ₀ = some (.number x, σ₀) ∧ FixedBy name x bound := by
  unfold boundCode at h
  cases hnumber : times.isNumber with
  | true =>
    rw [hnumber] at h
    obtain ⟨hpair, -⟩ := pure_eq_ok.1 h
    obtain ⟨rfl, rfl⟩ := Prod.mk.inj hpair
    cases times with
    | number n =>
      refine ⟨σ, rfl, .inl rfl, hx, fun σ₁ σ₂ h _ => ?_⟩
      obtain ⟨hn, -⟩ := Prod.mk.inj (Option.some.inj h)
      rw [Expr.eval, hn]
    | _ => exact absurd hnumber Bool.false_ne_true
  | false =>
    rw [hnumber] at h
    obtain ⟨e, κ₂, hassign, h⟩ := bind_eq_ok.1 h
    obtain rfl := Compilation.assign_eq_ok hassign
    obtain ⟨hpair, -⟩ := pure_eq_ok.1 h
    obtain ⟨rfl, rfl⟩ := Prod.mk.inj hpair
    refine ⟨_, execBody_singleton (exec_expr (eval_assign hx)), .inr rfl,
      eval_variable (Entries.get?_put_self ..), fun σ₁ σ₂ h hget => ?_⟩
    rw [Expr.eval] at h ⊢
    obtain ⟨hvalue, -⟩ := Prod.mk.inj (Option.some.inj h)
    rw [hget, hvalue]

include hbodies hslots

theorem simulates_repeat (hunbound : ∀ k, ∀ name ∈ counterNames k, name ∉ names)
    (hranges : ∀ v ∈ slotRanges b.statements, v ∈ names) {source : CountSource}
    (h : outcome (b.codeParts.compileRepeat source) κ = (.ok stmts, κ₁)) :
    Simulates limit names (Free names κ.depth (slotRanges b.statements)) (fun _ => .none) stmts
      ((bodiesOf limit b.statements).runRepeat (b.runParts limit).withoutBodies limit source) := by
  rw [compileRepeat_eq] at h
  obtain ⟨κ', κ₂, hget, h⟩ := bind_eq_ok.1 h
  obtain ⟨hκ, rfl⟩ := Prod.mk.inj hget
  obtain rfl := Except.ok.inj hκ
  obtain ⟨times, κ₃, htimes, h⟩ := bind_eq_ok.1 h
  obtain ⟨⟨before, bound⟩, κ₄, hbefore, h⟩ := bind_eq_ok.1 h
  obtain ⟨_, κ₅, hdeclare, h⟩ := bind_eq_ok.1 h
  obtain ⟨body, κ₆, hbody, h⟩ := bind_eq_ok.1 h
  obtain ⟨rfl, rfl⟩ := pure_eq_ok.1 h
  have hdepth : κ₅.depth = κ.depth := by
    have hκ₃ := (b.level_steps (.countCode source)).depth_eq htimes
    have hκ₄ := (level_boundCode _ times).depth_eq hbefore
    have hκ₅ := (Level.declare _ _).depth_eq hdeclare
    exact hκ₅.trans (hκ₄.trans hκ₃)
  have hcount := evaluates_count hslots htimes
  have hapart : ∀ v ∈ slotRanges b.statements, v ≠ counterName κ.depth := by
    rintro v hv rfl
    exact hunbound κ.depth _ (List.mem_cons_self ..) (hranges _ hv)
  have hend : counterName κ.depth ++ "_end" ∈ counterNames κ.depth :=
    List.mem_cons_of_mem _ (List.mem_cons_self ..)
  have hround := simulates_loopBody hbodies hbody
  rw [hdepth] at hround
  intro s a s' σ hr hσ
  obtain ⟨x, s₁, hx, hloop⟩ := bind_eq_ok.1 hr
  obtain ⟨rfl, w, rfl, hdenotes⟩ := hcount s x s₁ hx
  obtain ⟨σ₀, hexec₀, hσ₀, heval, hkept⟩ := exec_bound hbefore (hdenotes σ hσ)
  have hagrees : Agrees names s₁ σ₀ ∧ Keeps (Free names κ.depth (slotRanges b.statements)) σ σ₀ := by
    rcases hσ₀ with rfl | rfl
    · exact ⟨hσ, .refl _ _⟩
    · refine ⟨hσ.put (hunbound _ _ hend) _, .put (fun h => ?_) _⟩
      exact h.counters κ.depth (Nat.le_refl _) hend
  obtain ⟨σ', hexec, hσ', hkeeps⟩ := exec_countingLoop hround (hunbound _) hapart hkept hloop
    hagrees.1 heval
  refine ⟨σ', ?_, hσ', hagrees.2.trans hkeeps⟩
  rw [execBody_append, hexec₀]
  exact execBody_singleton hexec

end

end Blockwork
