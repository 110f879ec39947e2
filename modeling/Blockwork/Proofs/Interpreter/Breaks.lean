import Blockwork.Proofs.Interpreter.Escapes

/-! Runs of chains and their structured readings. Value slots only read, so that all control is in
the bodies; there an induction over the blocks compares the two. -/

namespace Blockwork

theorem Kind.reach_of_isValue {k : Kind} (h : k.isValue = true) : k.reach = .reading :=
  of_decide_eq_true h

section

variable (limit : Nat)

theorem reads_evaluateChain (chain : List (Block Kind)) (htame : Block.AllOf Block.Tame chain)
    (hvalue : holdsValue chain = true) : Run.Reads (evaluateChain limit chain) := by
  revert htame hvalue
  refine Block.chain_induction
    (P := fun b => b.All Block.Tame → b.kind.isValue = true → Run.Reads (b.evaluate limit))
    (Q := fun chain => Block.AllOf Block.Tame chain → holdsValue chain = true →
      Run.Reads (evaluateChain limit chain)) ?_ ?_ ?_ chain
  · intro b hvalues _ htame hkind
    obtain ⟨hb, hslots, -⟩ := Block.all_iff.1 htame
    have hsteps := b.kind.steps limit (b.runParts limit)
    rw [Kind.reach_of_isValue hkind] at hsteps
    rw [Block.evaluate_eq]
    refine .of_steps hsteps ?_
    rw [Block.values_runParts, List.forall_mem_map]
    exact fun s hs => hvalues s hs (hslots s hs) (hb.values s hs)
  · exact fun _ _ => .pure Value.null
  · intro b rest hb _ htame hvalue
    match rest, hvalue with
    | [], hkind => exact (hb htame.1 hkind).bind fun v => .bind (.pure ()) fun _ => .pure v

/-! ### Chains without escapes -/

theorem Gives.inScope {α : Type} {P : α → Prop} {m : Structured α} (h : Gives P m) :
    Gives P (Structured.inScope m) := by
  intro s a s' ha
  have hfst : (outcome m s.push).1 = .ok a := congrArg Prod.fst ha
  exact h s.push a _ (Prod.ext hfst rfl)

open Structured

theorem gives_runArms {bodies : Bodies} (h : ∀ name, Gives (· = .none) (bodies.run name))
    (p : Parts (Run Value)) (hasElse : Bool) (arms : List Nat) :
    Gives (· = .none) (bodies.runArms p hasElse arms) := by
  induction arms with
  | nil => exact .ite (h "ELSE").inScope (.pure rfl)
  | cons i rest ih => exact .of_last fun _ => .ite (h _).inScope ih

theorem gives_structured {p : Parts (Run Value)} {bodies : Bodies} {kind : Kind}
    (hflow : kind ≠ .flow)
    (h : kind.isLoop = false → ∀ name, Gives (· = .none) (bodies.run name)) :
    Gives (·.2 = .none) (kind.structured limit p bodies) := by
  cases kind with
  | branch alwaysElse =>
    refine Gives.bind (.of_last fun _ => ?_) fun _ he => .pure he
    exact gives_runArms (h rfl) p _ _
  | whileUntil => exact .of_last fun _ => .of_last fun _ => .pure rfl
  | flow => exact absurd rfl hflow
  | _ => exact .of_last fun _ => .pure rfl

theorem Block.structured_eq (b : Block Kind) : b.structured limit =
    b.kind.structured limit (b.runParts limit).withoutBodies (bodiesOf limit b.statements) := by
  cases b
  rfl

theorem bodiesOf_eq (sockets : List (Socket Kind)) : bodiesOf limit sockets =
    sockets.map fun s => (s.name, Prod.snd <$> structuredChain limit s.chain) := by
  induction sockets with
  | nil => rfl
  | cons s rest ih =>
    obtain ⟨name, chain⟩ := s
    rw [List.map_cons, ← ih]
    rfl

theorem lookup_sockets {α β : Type} (sockets : List (Socket Kind)) (f : Socket Kind → α)
    (g : Socket Kind → β) (name : String) :
    ((sockets.map fun s => (s.name, f s)).lookup name = none ∧
        (sockets.map fun s => (s.name, g s)).lookup name = none) ∨
      ∃ s ∈ sockets, s.name = name ∧
        (sockets.map fun s => (s.name, f s)).lookup name = some (f s) ∧
        (sockets.map fun s => (s.name, g s)).lookup name = some (g s) := by
  induction sockets with
  | nil => exact .inl ⟨rfl, rfl⟩
  | cons s rest ih =>
    rw [List.map_cons, List.map_cons, List.lookup_cons, List.lookup_cons]
    split
    · rename_i hname
      exact .inr ⟨s, List.mem_cons_self .., (beq_iff_eq.1 hname).symm, rfl, rfl⟩
    · obtain h | ⟨t, ht, h⟩ := ih
      · exact .inl h
      · exact .inr ⟨t, List.mem_cons_of_mem _ ht, h⟩

theorem Block.raises_eq (b : Block Kind) :
    b.raises = (b.kind = .flow || (!b.kind.isLoop && raisesInSlots b.statements) : Bool) := by
  cases b
  rfl

theorem raisesInSlots_iff {sockets : List (Socket Kind)} :
    raisesInSlots sockets = false ↔ ∀ s ∈ sockets, chainRaises s.chain = false := by
  induction sockets with
  | nil => simp [raisesInSlots]
  | cons s rest ih =>
    obtain ⟨name, chain⟩ := s
    rw [raisesInSlots, Bool.or_eq_false_iff, ih, List.forall_mem_cons]

theorem gives_body {sockets : List (Socket Kind)}
    (h : ∀ s ∈ sockets, Gives (·.2 = .none) (structuredChain limit s.chain)) (name : String) :
    Gives (· = .none) ((bodiesOf limit sockets).run name) := by
  rw [Bodies.run, bodiesOf_eq]
  obtain ⟨hnone, -⟩ | ⟨s, hs, -, hsome, -⟩ := lookup_sockets sockets
    (fun s => Prod.snd <$> structuredChain limit s.chain) (fun _ => ()) name
  · rw [hnone]
    exact .pure rfl
  · rw [hsome]
    exact (h s hs).bind fun x hx => .pure hx

/-- Without escape statements outside of loops a chain ends normally. -/
theorem gives_structuredChain (chain : List (Block Kind)) (h : chainRaises chain = false) :
    Gives (·.2 = .none) (structuredChain limit chain) ∧
      Gives (· = .none) (structuredRest limit chain) := by
  revert h
  refine Block.chain_induction
    (P := fun b => b.raises = false → Gives (·.2 = .none) (b.structured limit))
    (Q := fun chain => chainRaises chain = false →
      Gives (·.2 = .none) (structuredChain limit chain) ∧
        Gives (· = .none) (structuredRest limit chain)) ?_ ?_ ?_ chain
  · intro b _ hbodies hquiet
    rw [Block.raises_eq, Bool.or_eq_false_iff, decide_eq_false_iff_not] at hquiet
    obtain ⟨hflow, hslots⟩ := hquiet
    rw [Block.structured_eq]
    refine gives_structured limit hflow fun hloop => gives_body limit fun s hs => ?_
    rw [hloop, Bool.not_false, Bool.true_and, raisesInSlots_iff] at hslots
    exact (hbodies s hs (hslots s hs)).1
  · exact fun _ => ⟨.pure rfl, .pure rfl⟩
  · intro b rest hb hrest hquiet
    rw [chainRaises, Bool.or_eq_false_iff] at hquiet
    obtain ⟨hbquiet, hrestquiet⟩ := hquiet
    refine ⟨(hb hbquiet).bind fun x hx => ?_, (hb hbquiet).bind fun x hx => ?_⟩
    · exact .ite ((hrest hrestquiet).2.bind fun _ he => .pure he) (.pure hx)
    · exact .ite (hrest hrestquiet).2 (.pure hx)

/-! ### Chains -/

theorem ends_body {b : Block Kind}
    (h : ∀ s ∈ b.statements, Ends Prod.mk (evaluateChain limit s.chain)
      (structuredChain limit s.chain)) (name : String) :
    Ends (fun _ e => e) ((b.runParts limit).execute name)
      ((bodiesOf limit b.statements).run name) := by
  rw [Parts.execute, Block.statements_runParts, Bodies.run, bodiesOf_eq]
  obtain ⟨hrun, hread⟩ | ⟨s, hs, -, hrun, hread⟩ := lookup_sockets b.statements
    (fun s => (⟨!s.chain.isEmpty, evaluateChain limit s.chain⟩ : Plug (Run Value)))
    (fun s => Prod.snd <$> structuredChain limit s.chain) name
  · rw [hrun, hread]
    exact .pure ()
  · rw [hrun, hread]
    exact (h s hs).ending ()

theorem outcome_evaluateRest (chain : List (Block Kind)) {c : Context Value}
    (h : c.escape ≠ .none) : outcome (evaluateRest limit chain) c = (.ok (), c) := by
  cases chain with
  | nil => rfl
  | cons b rest =>
    rw [evaluateRest, outcome_bind, outcome_get]
    show outcome (if c.escape = .none then _ else _) c = _
    rw [if_neg h]
    rfl

theorem ends_evaluateChain (chain : List (Block Kind)) (htame : Block.AllOf Block.Tame chain) :
    Ends Prod.mk (evaluateChain limit chain) (structuredChain limit chain) ∧
      Ends (fun _ e => e) (evaluateRest limit chain) (structuredRest limit chain) := by
  revert htame
  refine Block.chain_induction
    (P := fun b => b.All Block.Tame → Ends Prod.mk (b.evaluate limit) (b.structured limit))
    (Q := fun chain => Block.AllOf Block.Tame chain →
      Ends Prod.mk (evaluateChain limit chain) (structuredChain limit chain) ∧
        Ends (fun _ e => e) (evaluateRest limit chain) (structuredRest limit chain))
    ?_ ?_ ?_ chain
  · intro b _ hbodies htame
    obtain ⟨hb, hvalues, hstatements⟩ := Block.all_iff.1 htame
    rw [Block.evaluate_eq, Block.structured_eq]
    refine ends_kind ?_ (ends_body limit fun s hs => (hbodies s hs (hstatements s hs)).1) limit ?_
    · rw [Block.values_runParts, List.forall_mem_map]
      exact fun s hs => reads_evaluateChain limit s.chain (hvalues s hs) (hb.values s hs)
    · intro hkind hmode
      have huntil : b.isUntil = true := by
        rw [Block.isUntil, hkind, decide_eq_true rfl, Bool.true_and]
        exact decide_eq_true hmode
      have hquiet := hb.bodies huntil
      exact gives_body limit (fun s hs => (gives_structuredChain limit s.chain (hquiet s hs)).1) _
  · exact fun _ => ⟨.pure Value.null, .pure ()⟩
  · intro b rest hb hrest htame
    have hblock := hb htame.1
    obtain ⟨-, hend⟩ := hrest htame.2
    constructor
    · refine hblock.bind_pending (k := id) (fun v => hend.giving v) fun v c hc => ?_
      rw [outcome_bind, outcome_evaluateRest limit rest hc]
      rfl
    · intro c hc
      have hrun : outcome (evaluateRest limit (b :: rest)) c =
          outcome (b.evaluate limit >>= fun _ => evaluateRest limit rest) c := by
        rw [evaluateRest, outcome_bind, outcome_get]
        show outcome (if c.escape = .none then _ else _) c = _
        rw [if_pos hc]
      rw [hrun]
      exact hblock.bind_pending (k := fun _ => ()) (fun _ => hend)
        (fun _ _ => outcome_evaluateRest limit rest) c hc

end

/-- Some number of rounds for each loop is enough for the work to end. -/
def Terminates {σ α : Type} (m : Nat → ExceptT Halt (StateM σ) α) (s : σ) : Prop :=
  ∃ limit, (outcome (m limit) s).1 ≠ .error .unfinished

/-- A run whose escapes are not looked at from outside is its structured reading: the two end for
the same contexts, with the same value or error and the same scopes, and the escape that is left
pending is the one that the reading ends with. -/
theorem evaluateChain_follows_structure {chain : List (Block Kind)}
    (htame : Block.AllOf Block.Tame chain) {c : Context Value} (hc : c.escape = .none) :
    (Terminates (evaluateChain · chain) c ↔ Terminates (structuredChain · chain) c.scopes) ∧
      ∀ limit x c', outcome (evaluateChain limit chain) c = (x, c') →
        outcome (structuredChain limit chain) c.scopes = (x.map (·, c'.escape), c'.scopes) ∧
          ∀ e, x = .error e → c'.escape = .none := by
  have key : ∀ limit, outcome (structuredChain limit chain) c.scopes =
      ((outcome (evaluateChain limit chain) c).1.map
        (·, (outcome (evaluateChain limit chain) c).2.escape),
        (outcome (evaluateChain limit chain) c).2.scopes) :=
    fun limit => ((ends_evaluateChain limit chain htame).1 c hc).2.2
  constructor
  · refine exists_congr fun limit => not_congr ?_
    rw [key]
    cases (outcome (evaluateChain limit chain) c).1 <;> simp [Except.map]
  · intro limit x c' h
    have he := ((ends_evaluateChain limit chain htame).1 c hc).2.1
    have hread := key limit
    rw [h] at he hread
    exact ⟨hread, he⟩

def holdsTrue (name : String) : Socket Kind :=
  ⟨name, [⟨.boolean, "logic_boolean", "b", [("BOOL", "TRUE")], [], [], [], []⟩]⟩

def escapingBranch (flow : String) : Block Kind :=
  let escape : Block Kind :=
    ⟨.flow, "controls_flow_statements", "f", [("FLOW", flow)], [], [], [], []⟩
  ⟨.branch false, "controls_if", "i", [], [holdsTrue "IF0"], [⟨"DO0", [escape]⟩], [], []⟩

/-- A loop that is left in its first round by an escape inside a branch. -/
def leftLoop : List (Block Kind) :=
  [⟨.whileUntil, "controls_whileUntil", "w", [("MODE", "WHILE")], [holdsTrue "BOOL"],
    [⟨"DO", [escapingBranch "BREAK"]⟩], [], []⟩]

/-- A branch passes its escape on, and the loop takes it. -/
theorem leftLoop_follows_structure :
    (Block.AllOf Block.Tame [escapingBranch "BREAK"] ∧
      outcome (structuredChain 1 [escapingBranch "BREAK"]) {} = (.ok (.null, .breaking), {})) ∧
    (Block.AllOf Block.Tame [escapingBranch "CONTINUE"] ∧
      outcome (structuredChain 1 [escapingBranch "CONTINUE"]) {} =
        (.ok (.null, .continuing), {})) ∧
    Block.AllOf Block.Tame leftLoop ∧
      outcome (structuredChain 1 leftLoop) {} = (.ok (.null, .none), {}) := by
  have hbreak : Block.AllOf Block.Tame [escapingBranch "BREAK"] := by decide
  have hcontinue : Block.AllOf Block.Tame [escapingBranch "CONTINUE"] := by decide
  have htame : Block.AllOf Block.Tame leftLoop := by decide
  have hrunBreak : outcome (evaluateChain 1 [escapingBranch "BREAK"]) {} =
      (.ok .null, { root := { escape := .breaking } }) := by with_unfolding_all rfl
  have hrunContinue : outcome (evaluateChain 1 [escapingBranch "CONTINUE"]) {} =
      (.ok .null, { root := { escape := .continuing } }) := by with_unfolding_all rfl
  have hrun : outcome (evaluateChain 1 leftLoop) {} = (.ok .null, {}) := by
    with_unfolding_all rfl
  exact ⟨⟨hbreak, ((evaluateChain_follows_structure hbreak rfl).2 1 _ _ hrunBreak).1⟩,
    ⟨hcontinue, ((evaluateChain_follows_structure hcontinue rfl).2 1 _ _ hrunContinue).1⟩,
    htame, ((evaluateChain_follows_structure htame rfl).2 1 _ _ hrun).1⟩

end Blockwork
