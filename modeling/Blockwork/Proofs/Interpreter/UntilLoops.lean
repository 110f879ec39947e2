import Blockwork.Proofs.Interpreter.KeptEscapes

/-! Loops that go on until their condition holds. They take no escape: one that a round leaves pending
stays pending in the scope of the loop, and from then on only the first block of the body runs. -/

namespace Blockwork

variable {α β : Type} {limit : Nat} {c : Context Value}

def Run.KeepsPending (m : Run α) : Prop :=
  ∀ c : Context Value, c.escape ≠ .none → (outcome m c).2.escape ≠ .none

namespace Run.KeepsPending

theorem pure (a : α) : KeepsPending (Pure.pure a : Run α) := fun _ hc => hc

theorem bind {m : Run α} {f : α → Run β} (hm : KeepsPending m) (hf : ∀ a, KeepsPending (f a)) :
    KeepsPending (m >>= f) :=
  KeepsEscape.bind (P := (· ≠ .none)) hm hf

theorem inBranch {m : Run α} (h : m.Framed) : KeepsPending (Traversal.inBranch m) := by
  intro c hc
  rw [Traversal.outcome_inBranch]
  unfold Context.closeBranch
  split
  · rw [(h c.push).escape_pop]
    exact hc
  · rw [Context.escape_setEscape]
    assumption

end Run.KeepsPending

/-! ### Kinds and chains -/

theorem keepsPending_flow {p : Parts (Run Value)} : p.executeFlow.KeepsPending := by
  intro c hc
  unfold Parts.executeFlow
  cases hescape : p.option "FLOW" flowOptions with
  | error e => exact hc
  | ok escape =>
    show (c.setEscape escape).escape ≠ .none
    obtain ⟨text, -, hlookup⟩ := Parts.option_eq_ok.1 hescape
    rw [Context.escape_setEscape]
    rintro rfl
    exact absurd (mem_of_lookup hlookup) (by simp [flowOptions])

theorem keepsPending_block {b : Block Kind}
    (hvalues : ∀ s ∈ b.values, (evaluateChain limit s.chain).KeepsPending) :
    (b.evaluate limit).KeepsPending :=
  keepsEscape_block (P := (· ≠ .none)) (fun _ => hvalues)
    (fun _ name => Run.KeepsPending.inBranch (b.framed_steps limit (.execute rfl name)))
    fun _ => keepsPending_flow

theorem keepsPending_evaluateChain (limit : Nat) (chain : List (Block Kind)) :
    (evaluateChain limit chain).KeepsPending ∧ (evaluateRest limit chain).KeepsPending := by
  refine Block.chain_induction (P := fun b => (b.evaluate limit).KeepsPending)
    (Q := fun chain => (evaluateChain limit chain).KeepsPending ∧
      (evaluateRest limit chain).KeepsPending) ?_ ?_ ?_ chain
  · exact fun b hvalues _ => keepsPending_block fun s hs => (hvalues s hs).1
  · exact ⟨.pure _, .pure _⟩
  · exact fun b rest hb hrest => keepsEscape_cons (P := (· ≠ .none)) hb hrest.2

/-- While an escape is pending, no block of a chain runs but the first. -/
theorem outcome_evaluateChain_pending (chain : List (Block Kind)) (hc : c.escape ≠ .none) :
    outcome (evaluateChain limit chain) c = outcome (evaluateChain limit (chain.take 1)) c := by
  cases chain with
  | nil => rfl
  | cons b rest =>
    have hpending : (outcome (b.evaluate limit) c).2.escape ≠ .none :=
      keepsPending_block (fun s _ => (keepsPending_evaluateChain limit s.chain).1) c hc
    rw [List.take_succ_cons, List.take_zero, evaluateChain, evaluateChain, outcome_bind, outcome_bind]
    generalize outcome (b.evaluate limit) c = x at hpending ⊢
    obtain ⟨e | v, c₁⟩ := x
    · rfl
    · show outcome (evaluateRest limit rest >>= fun _ => pure v) c₁ = (.ok v, c₁)
      rw [outcome_bind, outcome_evaluateRest limit rest hpending]
      rfl

/-! ### Rounds -/

def untilRound (condition : Run Bool) (body : Run Unit) : Run (Option Unit) := do
  if ← condition then return none
  else
    body
    return some ()

/-- The rounds of a loop that goes on until its condition holds: the whole body as long as no escape
is pending where it starts, and the head alone from the first round on in which one is. -/
def untilRounds (condition : Run Bool) (whole head : Run Unit) : Nat → Run Unit
  | 0 => throw .unfinished
  | limit + 1 => do
    if ← condition then return ()
    else if (← MonadState.get).escape = .none then
      whole
      untilRounds condition whole head limit
    else
      head
      Run.iterate (fun () => untilRound condition head) limit ()

theorem outcome_untilRound (condition : Run Bool) (body : Run Unit) (c : Context Value) :
    outcome (untilRound condition body) c = match outcome condition c with
      | (.ok true, c₁) => (.ok none, c₁)
      | (.ok false, c₁) => outcome (body >>= fun _ => pure (some ())) c₁
      | (.error e, c₁) => (.error e, c₁) := by
  rw [untilRound, outcome_bind]
  obtain ⟨e | _ | _, c₁⟩ := outcome condition c <;> rfl

theorem outcome_untilRounds_succ (condition : Run Bool) (whole head : Run Unit) (limit : Nat)
    (c : Context Value) :
    outcome (untilRounds condition whole head (limit + 1)) c = match outcome condition c with
      | (.ok true, c₁) => (.ok (), c₁)
      | (.ok false, c₁) =>
        if c₁.escape = .none then
          outcome (whole >>= fun _ => untilRounds condition whole head limit) c₁
        else outcome (head >>= fun _ => Run.iterate (fun () => untilRound condition head) limit ()) c₁
      | (.error e, c₁) => (.error e, c₁) := by
  rw [untilRounds, outcome_bind]
  obtain ⟨e | holds, c₁⟩ := outcome condition c
  · rfl
  cases holds with
  | true => rfl
  | false => exact apply_ite (outcome · c₁) (c₁.escape = .none) _ _

section

variable {condition : Run Bool} {whole head : Run Unit} (hcondition : condition.KeepsPending)
  (hhead : head.KeepsPending)
  (hwhole : ∀ c : Context Value, c.escape ≠ .none → outcome whole c = outcome head c)

include hcondition hhead hwhole

/-- Once an escape is pending it stays so, and whole bodies do no more than their heads. -/
theorem outcome_rounds_pending (limit : Nat) (hc : c.escape ≠ .none) :
    outcome (Run.iterate (fun () => untilRound condition whole) limit ()) c =
      outcome (Run.iterate (fun () => untilRound condition head) limit ()) c := by
  induction limit generalizing c with
  | zero => rfl
  | succ limit ih =>
    have hpending := hcondition c hc
    rw [Run.outcome_iterate_succ, Run.outcome_iterate_succ, outcome_untilRound, outcome_untilRound]
    generalize outcome condition c = x at hpending ⊢
    obtain ⟨e | holds, c₁⟩ := x
    · rfl
    cases holds with
    | true => rfl
    | false =>
      have hpending₁ := hhead c₁ hpending
      simp only [outcome_bind, hwhole c₁ hpending]
      generalize outcome head c₁ = y at hpending₁ ⊢
      obtain ⟨e | _, c₂⟩ := y
      · rfl
      · exact ih hpending₁

theorem outcome_untilRounds (limit : Nat) (c : Context Value) :
    outcome (Run.iterate (fun () => untilRound condition whole) limit ()) c =
      outcome (untilRounds condition whole head limit) c := by
  induction limit generalizing c with
  | zero => rfl
  | succ limit ih =>
    rw [Run.outcome_iterate_succ, outcome_untilRound, outcome_untilRounds_succ]
    obtain ⟨e | holds, c₁⟩ := outcome condition c
    · rfl
    cases holds with
    | true => rfl
    | false =>
      by_cases hc₁ : c₁.escape = .none
      · simp only [outcome_bind, if_pos hc₁]
        obtain ⟨e | _, c₂⟩ := outcome whole c₁
        · rfl
        · exact ih c₂
      · have hpending := hhead c₁ hc₁
        simp only [outcome_bind, if_neg hc₁, hwhole c₁ hc₁]
        generalize outcome head c₁ = y at hpending ⊢
        obtain ⟨e | _, c₂⟩ := y
        · rfl
        · exact outcome_rounds_pending hcondition hhead hwhole limit hpending

end

/-! ### Loops -/

def Block.loopBody (b : Block Kind) : List (Block Kind) :=
  ((b.statements.map fun s => (s.name, s.chain)).lookup "DO").getD []

def runBody (limit : Nat) (chain : List (Block Kind)) : Run Unit := do
  let _ ← evaluateChain limit chain

theorem execute_loopBody (limit : Nat) (b : Block Kind) :
    (b.runParts limit).execute "DO" = runBody limit b.loopBody := by
  rw [Parts.execute, Block.statements_runParts, Block.loopBody]
  obtain ⟨hrun, hchain⟩ | ⟨s, -, -, hrun, hchain⟩ := lookup_sockets b.statements
    (fun s => (⟨!s.chain.isEmpty, evaluateChain limit s.chain⟩ : Plug (Run Value)))
    (fun s => s.chain) "DO"
  · rw [hrun, hchain]
    rfl
  · rw [hrun, hchain]
    rfl

theorem keepsPending_condition (limit : Nat) (b : Block Kind) (name : String) :
    ((b.runParts limit).evaluateCondition name).KeepsPending := by
  refine keepsEscape_reading (P := (· ≠ .none)) ?_ (.evaluateCondition name)
  rw [Block.values_runParts, List.forall_mem_map]
  exact fun s _ => (keepsPending_evaluateChain limit s.chain).1

theorem framed_rounds (limit : Nat) (b : Block Kind) :
    (Run.iterate (fun () => untilRound ((b.runParts limit).evaluateCondition "BOOL")
      (runBody limit b.loopBody)) limit ()).Framed := by
  rw [← execute_loopBody]
  refine b.framed_steps limit (r := .steering) (.iterate limit () rfl fun _ => ?_)
  refine (Parts.Steps.evaluateCondition _).bind fun _ => .ite (.pure _) ?_
  exact (Parts.Steps.execute rfl _).bind fun _ => .pure _

theorem outcome_until {b : Block Kind} (h : b.isUntil = true) (limit : Nat) (c : Context Value) :
    outcome (b.evaluate limit) c = outcome (do
      Traversal.inLoop (Run.iterate (fun () =>
        untilRound ((b.runParts limit).evaluateCondition "BOOL") (runBody limit b.loopBody)) limit ())
      return Value.null) c := by
  rw [Block.isUntil, Bool.and_eq_true, decide_eq_true_iff] at h
  obtain ⟨hkind, hmode⟩ := h
  have hmode : (b.runParts limit).option "MODE" LoopMode.options = .ok .repeatUntil :=
    Parts.option_eq_ok.2 ⟨"UNTIL", of_decide_eq_true hmode, rfl⟩
  rw [Block.evaluate_eq, hkind, ← execute_loopBody]
  show outcome (liftM ((b.runParts limit).option "MODE" LoopMode.options) >>= fun mode => do
    (b.runParts limit).executeWhileUntil limit mode
    return Value.null) c = _
  rw [hmode]
  rfl

/-- A loop that goes on until its condition holds runs its whole body in each round up to the first
one that leaves an escape pending, and only the first block of the body in all rounds after that.
No escape ends the loop, and none leaves it. -/
theorem until_runs_heads_after_escape {b : Block Kind} (h : b.isUntil = true) (limit : Nat)
    (c : Context Value) :
    outcome (b.evaluate limit) c = outcome (do
        Traversal.inLoop (untilRounds ((b.runParts limit).evaluateCondition "BOOL")
          (runBody limit b.loopBody) (runBody limit (b.loopBody.take 1)) limit)
        return Value.null) c ∧
      (outcome (b.evaluate limit) c).2.escape = c.escape := by
  have hhead : (runBody limit (b.loopBody.take 1)).KeepsPending :=
    (keepsPending_evaluateChain limit _).1.bind fun _ => .pure ()
  have hwhole : ∀ c : Context Value, c.escape ≠ .none →
      outcome (runBody limit b.loopBody) c = outcome (runBody limit (b.loopBody.take 1)) c := by
    intro c hc
    rw [runBody, runBody, outcome_bind, outcome_bind, outcome_evaluateChain_pending _ hc]
  have hrounds := outcome_untilRounds (keepsPending_condition limit b "BOOL") hhead hwhole limit c.push
  have hframe := framed_rounds limit b c.push
  rw [outcome_until h, outcome_bind, outcome_bind, Traversal.outcome_inLoop,
    Traversal.outcome_inLoop, ← hrounds]
  refine ⟨rfl, ?_⟩
  generalize outcome (Run.iterate _ limit ()) c.push = x at hframe ⊢
  obtain ⟨e | _, c₁⟩ := x <;> exact hframe.escape_pop

/-- A loop until `x` is `aaa`. Each round puts an `a` behind `x`, and one that finds a single `a`
there is to go on with the next round; the others put a `b` behind `y`. -/
def marks : Block Kind :=
  let letter (text : String) : Block Kind := ⟨.text, "text", "t", [("TEXT", text)], [], [], [], []⟩
  let append (name text : String) : Block Kind :=
    ⟨.append, "text_append", "a", [("VAR", name)], [⟨"TEXT", [letter text]⟩], [], [], []⟩
  let holds (text : String) : Block Kind := ⟨.compare, "logic_compare", "c", [("OP", "EQ")],
    [⟨"A", [⟨.get, "variables_get", "g", [("VAR", "x")], [], [], [], []⟩]⟩, ⟨"B", [letter text]⟩],
    [], [], []⟩
  let escape : Block Kind :=
    ⟨.flow, "controls_flow_statements", "f", [("FLOW", "CONTINUE")], [], [], [], []⟩
  let skip : Block Kind := ⟨.branch false, "controls_if", "i", [], [⟨"IF0", [holds "a"]⟩],
    [⟨"DO0", [escape]⟩], [], []⟩
  ⟨.whileUntil, "controls_whileUntil", "w", [("MODE", "UNTIL")], [⟨"BOOL", [holds "aaa"]⟩],
    [⟨"DO", [append "x" "a", skip, append "y" "b"]⟩], [], []⟩

def marksStart : Context Value := .ofBindings [("x", .null), ("y", .null)]

theorem outcome_marks : outcome (marks.evaluate 4) marksStart =
    (.ok .null, .ofBindings [("x", .text "aaa"), ("y", .null)]) := by cbv

theorem marks_runs_heads_after_escape : marks.isUntil = true ∧
    outcome (do
      Traversal.inLoop (untilRounds ((marks.runParts 4).evaluateCondition "BOOL")
        (runBody 4 marks.loopBody) (runBody 4 (marks.loopBody.take 1)) 4)
      return Value.null) marksStart = (.ok .null, .ofBindings [("x", .text "aaa"), ("y", .null)]) :=
  ⟨rfl, (until_runs_heads_after_escape rfl 4 marksStart).1.symm.trans outcome_marks⟩

/-- The second round of the loop starts with the escape of the first one, so neither it nor the third
gets to `y`. If each round took its escape, both would. -/
theorem marks_escape_outlives_round :
    let condition := (marks.runParts 4).evaluateCondition "BOOL"
    marks.isUntil = true ∧ (∀ s ∈ marks.values, holdsValue s.chain = true) ∧
      (outcome (untilRound condition (runBody 4 marks.loopBody)) marksStart.push).2.escape =
        .continuing ∧
      outcome (marks.evaluate 4) marksStart =
        (.ok .null, .ofBindings [("x", .text "aaa"), ("y", .null)]) ∧
      outcome (do
        Traversal.inLoop (Run.iterate (fun () => untilRound condition do
          let _ ← (marks.runParts 4).executeRound) 4 ())
        return Value.null) marksStart =
          (.ok .null, .ofBindings [("x", .text "aaa"), ("y", .text "bb")]) := by
  refine ⟨rfl, by decide, ?_, outcome_marks, ?_⟩
  · cbv
  · cbv

end Blockwork
