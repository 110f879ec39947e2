import Blockwork.Proofs.Compiler.Branches

/-! Loops: each round of a run is one turn of the compiled loop. What a loop brings with it is free
for its body, which is compiled deeper, so it has its value again at the next turn. -/

namespace Blockwork

open Target Structured

variable {names : List String} {limit : Nat}

section Turns

variable {τ : Type} {step : τ → Structured (Option τ)} {extra : τ → Store → Prop}
  {free free' : String → Prop} {condition : Store → Option (Target.Value × Store)}
  {update : Store → Option Store}

/-- A turn does what a step of the loop does, and there is a next one for both or for none. -/
def Turns (names : List String) (free : String → Prop) (extra : τ → Store → Prop)
    (step : τ → Structured (Option τ)) (next : Store → Option (Bool × Store)) : Prop :=
  ∀ t s x s' σ, outcome (step t) s = (.ok x, s') → Agrees names s σ → extra t σ →
    ∃ σ', next σ = some (x.isSome, σ') ∧ Agrees names s' σ' ∧ Keeps free σ σ' ∧
      ∀ t', x = some t' → extra t' σ'

theorem turns_of_iterate {body : Effect}
    (h : Turns names free extra step (turn condition body update)) {limit : Nat} {t : τ}
    {s s' : Scopes Value} {σ : Store} (hr : outcome (iterate step limit t) s = (.ok (), s'))
    (hσ : Agrees names s σ) (hextra : extra t σ) :
    ∃ σ', turns condition body update limit σ = some σ' ∧ Agrees names s' σ' ∧ Keeps free σ σ' := by
  induction limit generalizing t s σ with
  | zero => exact (throw_eq_ok.1 hr).elim
  | succ limit ih =>
    obtain ⟨x, s₁, hx, hr⟩ := bind_eq_ok.1 hr
    obtain ⟨σ₁, hturn, hσ₁, hkeeps, hnext⟩ := h t s x s₁ σ hx hσ hextra
    rw [turns, hturn]
    cases x with
    | none =>
      obtain ⟨-, rfl⟩ := pure_eq_ok.1 hr
      exact ⟨σ₁, rfl, hσ₁, hkeeps⟩
    | some t' =>
      obtain ⟨σ₂, hturns, hσ₂, hkeeps₂⟩ := ih hr hσ₁ (hnext t' rfl)
      exact ⟨σ₂, hturns, hσ₂, hkeeps.trans hkeeps₂⟩

def Updates (names : List String) (free free' : String → Prop) (extra : τ → Store → Prop)
    (r : Structured (Option τ)) (update : Store → Option Store) (σ₀ : Store) : Prop :=
  ∀ s x s' σ, outcome r s = (.ok x, s') → Agrees names s σ → Keeps free' σ₀ σ →
    ∃ t σ', x = some t ∧ update σ = some σ' ∧ Agrees names s' σ' ∧ Keeps free σ σ' ∧ extra t σ'

theorem turn_of_round {bodies : Bodies} {body : List Stmt} {p : Prop} [Decidable p]
    {r : Structured (Option τ)} {s s' : Scopes Value} {x : Option τ} {σ : Store} {w : Target.Value}
    (hbody : Simulates limit names free' id body (bodies.run "DO"))
    (hfree : ∀ name, free name → free' name)
    (hcondition : condition σ = some (w, σ)) (hw : w.truthy = decide p)
    (hσ : Agrees names s σ) (hupdate : Updates names free free' extra r update σ)
    (hr : outcome (if p then (do if ← bodies.round then r else return none) else return none) s =
      (.ok x, s')) :
    ∃ σ', turn condition (fun σ => execBody limit body σ) update σ = some (x.isSome, σ') ∧
      Agrees names s' σ' ∧ Keeps free σ σ' ∧ ∀ t', x = some t' → extra t' σ' := by
  by_cases hp : p
  · rw [if_pos hp] at hr
    rw [decide_eq_true hp] at hw
    obtain ⟨goesOn, s₁, hround, hr⟩ := bind_eq_ok.1 hr
    obtain ⟨e, s₂, he, hpure⟩ := bind_eq_ok.1 hround
    obtain ⟨rfl, rfl⟩ := pure_eq_ok.1 hpure
    obtain ⟨σ₁, hexec, hσ₁, hkeeps⟩ := hbody s e s₂ σ he hσ
    have hkeeps' := hkeeps.mono hfree
    by_cases hbreak : e = .breaking
    · subst hbreak
      obtain ⟨rfl, rfl⟩ := pure_eq_ok.1 hr
      exact ⟨σ₁, turn_broken hcondition hw hexec, hσ₁, hkeeps', fun _ h => nomatch h⟩
    · rw [if_pos (bne_iff_ne.2 hbreak)] at hr
      obtain ⟨t, σ₂, rfl, hstore, hσ₂, hkeeps₂, hextra⟩ := hupdate s₂ x s' σ₁ hr hσ₁ hkeeps
      refine ⟨σ₂, turn_more hcondition hw hexec hbreak hstore, hσ₂, hkeeps'.trans hkeeps₂, ?_⟩
      intro t' ht'
      obtain rfl := Option.some.inj ht'
      exact hextra
  · rw [if_neg hp] at hr
    rw [decide_eq_false hp] at hw
    obtain ⟨rfl, rfl⟩ := pure_eq_ok.1 hr
    exact ⟨σ, turn_over hcondition hw, hσ, .refl _ _, fun _ h => nomatch h⟩

end Turns

/-! ### Loops with a condition -/

theorem simulates_whileLoop {free : String → Prop} {code : Expr} {body : List Stmt}
    {step : Unit → Structured (Option Unit)}
    (hturns : Turns names free (fun _ _ => True) step
      (turn code.eval (fun σ => execBody limit body σ) some)) :
    Simulates limit names free (fun _ => .none) [.whileLoop code body]
      (inScope (iterate step limit ())) := by
  refine Simulates.inScope fun s a s' σ hr hσ => ?_
  obtain ⟨σ', hexec, hσ', hkeeps⟩ := turns_of_iterate hturns hr hσ trivial
  exact ⟨σ', execBody_singleton (exec_whileLoop hexec), hσ', hkeeps⟩

section

variable {free free' : String → Prop} {bodies : Bodies} {body : List Stmt} {condition : Expr}
  {decision : Run Bool}
  (hcondition : Evaluates names (fun decided w => w.truthy = decided) decision condition)
  (hround : Simulates limit names free' id body (bodies.run "DO"))
  (hfree : ∀ name, free name → free' name)

include hcondition hround hfree

theorem turns_while : Turns names free (fun _ _ => True)
    (fun () => do
      if ← ofRun decision then
        if ← bodies.round then return some () else return none
      else return none)
    (turn condition.eval (fun σ => execBody limit body σ) some) := by
  intro t s x s' σ hr hσ _
  obtain ⟨decided, s₁, hdecided, hnext⟩ := bind_eq_ok.1 hr
  obtain ⟨rfl, w, hw, hdenotes⟩ := hcondition s decided s₁ hdecided
  have htruth : w.truthy = decide (decided = true) := hw.trans Bool.decide_eq_true.symm
  refine turn_of_round hround hfree (hdenotes σ hσ) htruth hσ ?_ hnext
  intro s₂ x s₃ σ₁ hpure hσ₁ _
  obtain ⟨rfl, rfl⟩ := pure_eq_ok.1 hpure
  exact ⟨(), σ₁, rfl, rfl, hσ₁, .refl _ _, trivial⟩

/-- The program checks the negated condition first, and no escape leaves the body: the loop of the
program cannot be left by one either. -/
theorem turns_until (hquiet : Gives (· = .none) (bodies.run "DO")) :
    Turns names free (fun _ _ => True)
      (fun () => do
        if ← ofRun decision then return none
        else
          let _ ← bodies.run "DO"
          return some ())
      (turn (Expr.unary .not condition).eval (fun σ => execBody limit body σ) some) := by
  intro t s x s' σ hr hσ _
  obtain ⟨decided, s₁, hdecided, hnext⟩ := bind_eq_ok.1 hr
  obtain ⟨rfl, w, hw, hdenotes⟩ := hcondition s decided s₁ hdecided
  have hnot := hdenotes.unary .not σ hσ
  have htruth : (UnaryOp.not.apply w).truthy = !decided := congrArg (!·) hw
  cases decided with
  | true =>
    obtain ⟨rfl, rfl⟩ := pure_eq_ok.1 hnext
    exact ⟨σ, turn_over hnot htruth, hσ, .refl _ _, fun _ _ => trivial⟩
  | false =>
    obtain ⟨e, s₂, he, hpure⟩ := bind_eq_ok.1 hnext
    obtain ⟨rfl, rfl⟩ := pure_eq_ok.1 hpure
    obtain rfl := hquiet s₁ e s₂ he
    obtain ⟨σ₁, hexec, hσ₁, hkeeps⟩ := hround s₁ _ s₂ σ he hσ
    exact ⟨σ₁, turn_more hnot htruth hexec (by decide) rfl, hσ₁, hkeeps.mono hfree,
      fun _ _ => trivial⟩

end

section

variable {b : Block Kind} {κ κ₁ : Context Expr} {stmts : List Stmt}
  (hbodies : ∀ s ∈ b.statements, ChainSimulated limit names s.chain)

include hbodies

theorem simulates_loopBody (h : outcome b.codeParts.compileLoopBody κ = (.ok stmts, κ₁)) :
    Simulates limit names (Free names (κ.depth + 1) (slotRanges b.statements)) id stmts
      ((bodiesOf limit b.statements).run "DO") := by
  obtain ⟨κ₂, hbody, -⟩ := Traversal.inLoop_eq_ok h
  exact simulates_deeper hbodies hbody

variable (hslots : ∀ (c : Context Value), ∀ s ∈ b.values,
  Mirrors c (Computes names c) (evaluateChain limit s.chain) (compileExpression s.chain))

include hslots

theorem simulates_whileUntil {mode : LoopMode}
    (hquiet : mode = .repeatUntil → Gives (· = .none) ((bodiesOf limit b.statements).run "DO"))
    (h : outcome (b.codeParts.compileWhileUntil mode) κ = (.ok stmts, κ₁)) :
    Simulates limit names (Free names κ.depth (slotRanges b.statements)) (fun _ => .none) stmts
      ((bodiesOf limit b.statements).runWhileUntil (b.runParts limit).withoutBodies limit mode) := by
  obtain ⟨condition, κ₂, hcode, h⟩ := bind_eq_ok.1 h
  obtain ⟨body, κ₃, hbody, h⟩ := bind_eq_ok.1 h
  obtain ⟨rfl, -⟩ := pure_eq_ok.1 h
  have hcondition := evaluates_condition hslots hcode
  have hround := simulates_loopBody hbodies hbody
  rw [(b.level_steps (.compile _)).depth_eq hcode] at hround
  cases mode with
  | repeatWhile => exact simulates_whileLoop (turns_while hcondition hround Free.deeper)
  | repeatUntil =>
    exact simulates_whileLoop (turns_until hcondition hround Free.deeper (hquiet rfl))

/-! ### Loops over a list -/

omit hslots hbodies in
theorem turnItems_of_runItems {free free' : String → Prop} {bodies : Bodies} {body : List Stmt}
    {name : String} (hround : Simulates limit names free' id body (bodies.run "DO"))
    (hfree : ∀ name, free name → free' name) (hunbound : ∀ name, free name → name ∉ names)
    (hname : name ∈ names) {items : List Value} {s s' : Scopes Value} {σ : Store}
    (hr : outcome (bodies.runItems name items) s = (.ok (), s')) (hσ : Agrees names s σ) :
    ∃ σ', turnItems (fun σ => execBody limit body σ) name (Value.targets items) σ = some σ' ∧
      Agrees names s' σ' ∧ Keeps free σ σ' := by
  induction items generalizing s σ with
  | nil =>
    obtain ⟨-, rfl⟩ := pure_eq_ok.1 hr
    exact ⟨σ, rfl, hσ, .refl _ _⟩
  | cons item rest ih =>
    obtain ⟨_, s₁, hset, hr⟩ := bind_eq_ok.1 hr
    obtain ⟨-, rfl⟩ := Prod.mk.inj hset
    obtain ⟨goesOn, s₂, hone, hr⟩ := bind_eq_ok.1 hr
    obtain ⟨e, s₃, he, hpure⟩ := bind_eq_ok.1 hone
    obtain ⟨rfl, rfl⟩ := pure_eq_ok.1 hpure
    obtain ⟨σ₁, hexec, hσ₁, hkeeps⟩ := hround _ e s₃ _ he (hσ.set hname item)
    have hput : Keeps free σ (σ.put name item.target) :=
      .put (fun h => hunbound name h hname) _
    have hkeeps₁ := hput.trans (hkeeps.mono hfree)
    have hexec : execBody limit body (σ.put name item.target) = some (e, σ₁) := hexec
    rw [Value.targets, turnItems, hexec]
    by_cases hbreak : e = .breaking
    · subst hbreak
      obtain ⟨-, rfl⟩ := pure_eq_ok.1 hr
      exact ⟨σ₁, rfl, hσ₁, hkeeps₁⟩
    · rw [if_pos (bne_iff_ne.2 hbreak)] at hr
      obtain ⟨σ₂, hturns, hσ₂, hkeeps₂⟩ := ih hr hσ₁
      exact ⟨σ₂, (if_neg hbreak).trans hturns, hσ₂, hkeeps₁.trans hkeeps₂⟩

theorem simulates_forEach (hbound : ∀ name ∈ b.fields.get? "VAR", name ∈ names)
    (h : outcome b.codeParts.compileForEach κ = (.ok stmts, κ₁)) :
    Simulates limit names (Free names κ.depth (slotRanges b.statements)) (fun _ => .none) stmts
      ((bodiesOf limit b.statements).runForEach (b.runParts limit).withoutBodies) := by
  obtain ⟨name, κ₂, hname, h⟩ := bind_eq_ok.1 h
  obtain ⟨hfield, rfl⟩ := Compilation.lift_eq_ok.1 hname
  obtain ⟨sequence, κ₃, hsequence, h⟩ := bind_eq_ok.1 h
  obtain ⟨_, κ₄, hdeclare, h⟩ := bind_eq_ok.1 h
  obtain ⟨body, κ₅, hbody, h⟩ := bind_eq_ok.1 h
  obtain ⟨rfl, rfl⟩ := pure_eq_ok.1 h
  have hdepth : κ₄.depth = κ.depth := by
    have hκ₃ := (b.level_steps (.compile _)).depth_eq hsequence
    have hκ₄ := (Level.declare _ _).depth_eq hdeclare
    exact hκ₄.trans hκ₃
  have hround := simulates_loopBody hbodies hbody
  rw [hdepth] at hround
  have hmember := hbound name (Parts.field_eq_ok.1 hfield)
  refine .lift hfield fun s a s' σ hr hσ => ?_
  obtain ⟨v, s₁, hv, hlist⟩ := bind_eq_ok.1 hr
  obtain ⟨rfl, w, rfl, hdenotes⟩ := evaluates_value hslots hsequence s v s₁ hv
  obtain ⟨items, s₂, hitems, hloop⟩ := bind_eq_ok.1 hlist
  obtain ⟨hv, rfl⟩ := Structured.lift_eq_ok.1 hitems
  obtain rfl := Value.asList_eq_ok.1 hv
  obtain ⟨s₃, hrun, rfl⟩ := inScope_eq_ok hloop
  obtain ⟨σ', hturns, hσ', hkeeps⟩ := turnItems_of_runItems hround Free.deeper
    (fun _ => Free.unbound) hmember hrun hσ.push
  exact ⟨σ', execBody_singleton (exec_forEach (hdenotes σ hσ) hturns), hσ'.pop, hkeeps⟩

end

end Blockwork
