import Blockwork.Proofs.Interpreter.SideBySide
import Blockwork.Proofs.Interpreter.UntilLoops

/-! Escapes that outlive the run of a workspace. A run takes what a chain leaves pending when the chain
is over, and a chain that fails is never over. An escape is pending where a chain fails only if a value
slot raised it: the next run in the same context then finds it, and skips blocks. -/

namespace Blockwork

variable {α β : Type} {limit : Nat} {c : Context Value}

mutual

/-- An escape statement may run for the value of a slot, in the scope of the block or in that of a
branch in it. The slots of a loop that goes by a condition are read in the scope of the loop. -/
def Block.leaks : Block Kind → Bool
  | ⟨kind, _, _, _, values, statements, _, _⟩ =>
    (kind ≠ .whileUntil && leaksInValues values) || (!kind.isLoop && leaksInBodies statements)

def leaksInValues : List (Socket Kind) → Bool
  | [] => false
  | ⟨_, chain⟩ :: rest => chainRaises chain || chainLeaks chain || leaksInValues rest

def leaksInBodies : List (Socket Kind) → Bool
  | [] => false
  | ⟨_, chain⟩ :: rest => chainLeaks chain || leaksInBodies rest

def chainLeaks : List (Block Kind) → Bool
  | [] => false
  | block :: rest => block.leaks || chainLeaks rest

end

def Workspace.leaks (w : Workspace Kind) : Bool := w.chains.any chainLeaks

theorem Block.leaks_eq (b : Block Kind) : b.leaks =
    ((b.kind ≠ .whileUntil && leaksInValues b.values) ||
      (!b.kind.isLoop && leaksInBodies b.statements)) := by
  cases b
  rfl

theorem leaksInValues_iff {sockets : List (Socket Kind)} : leaksInValues sockets = false ↔
    ∀ s ∈ sockets, chainRaises s.chain = false ∧ chainLeaks s.chain = false := by
  induction sockets with
  | nil => simp [leaksInValues]
  | cons s rest ih =>
    obtain ⟨name, chain⟩ := s
    rw [leaksInValues, Bool.or_eq_false_iff, Bool.or_eq_false_iff, ih, List.forall_mem_cons]

theorem leaksInBodies_iff {sockets : List (Socket Kind)} :
    leaksInBodies sockets = false ↔ ∀ s ∈ sockets, chainLeaks s.chain = false := by
  induction sockets with
  | nil => simp [leaksInBodies]
  | cons s rest ih =>
    obtain ⟨name, chain⟩ := s
    rw [leaksInBodies, Bool.or_eq_false_iff, ih, List.forall_mem_cons]

theorem Block.leaks_eq_false {b : Block Kind} (h : b.leaks = false) :
    (b.kind ≠ .whileUntil →
        ∀ s ∈ b.values, chainRaises s.chain = false ∧ chainLeaks s.chain = false) ∧
      (b.kind.isLoop = false → ∀ s ∈ b.statements, chainLeaks s.chain = false) := by
  rw [Block.leaks_eq, Bool.or_eq_false_iff] at h
  obtain ⟨hvalues, hbodies⟩ := h
  refine ⟨fun hkind => ?_, fun hloop => ?_⟩
  · rw [decide_eq_true hkind, Bool.true_and, leaksInValues_iff] at hvalues
    exact hvalues
  · rw [hloop, Bool.not_false, Bool.true_and, leaksInBodies_iff] at hbodies
    exact hbodies

/-! ### Runs that leave no escape -/

def Run.Quiet (m : Run α) : Prop := m.KeepsEscape (· = .none)

def Run.Clean (m : Run α) : Prop :=
  ∀ (c c' : Context Value) (e : Halt), c.escape = .none → outcome m c = (.error e, c') →
    c'.escape = .none

namespace Run

theorem Quiet.inBranch {m : Run α} (h : m.Quiet) (hframed : m.Framed) :
    Quiet (Traversal.inBranch m) := by
  intro c hc
  rw [Traversal.outcome_inBranch, (hframed c.push).escape_closeBranch hc]
  exact h c.push rfl

theorem Quiet.clean {m : Run α} (h : m.Quiet) : m.Clean := by
  intro c c' e hc hm
  have hquiet := h c hc
  rw [hm] at hquiet
  exact hquiet

namespace Clean

variable {m : Run α} {f : α → Run β}

theorem bind (hm : m.Quiet) (hf : ∀ a, Clean (f a)) : Clean (m >>= f) := by
  intro c c' e hc h
  have hquiet := hm c hc
  rw [outcome_bind] at h
  generalize outcome m c = x at hquiet h
  obtain ⟨e | a, c₁⟩ := x
  · obtain ⟨-, rfl⟩ := Prod.mk.inj h
    exact hquiet
  · exact hf a c₁ c' e hquiet h

theorem bind_pending (hm : m.Clean) (hf : ∀ a, Clean (f a))
    (hpending : ∀ a c, c.escape ≠ .none → ∃ b c', outcome (f a) c = (.ok b, c')) :
    Clean (m >>= f) := by
  intro c c' e hc h
  rw [outcome_bind] at h
  cases hx : outcome m c with
  | mk result c₁ =>
  rw [hx] at h
  cases result with
  | error e =>
    obtain ⟨-, rfl⟩ := Prod.mk.inj h
    exact hm c c₁ e hc hx
  | ok a =>
    by_cases hnone : c₁.escape = .none
    · exact hf a c₁ c' e hnone h
    · obtain ⟨b, c₂, hok⟩ := hpending a c₁ hnone
      exact nomatch hok.symm.trans h

theorem giving (hm : m.Clean) (b : β) : Clean (m >>= fun _ => pure b) :=
  hm.bind_pending (fun _ => Quiet.clean (.pure b)) fun _ c _ => ⟨b, c, rfl⟩

theorem ite {p : Prop} [Decidable p] {m' : Run α} (h : m.Clean) (h' : m'.Clean) :
    Clean (if p then m else m') := by
  split
  · exact h
  · exact h'

theorem inBranch (h : m.Clean) (hframed : m.Framed) : Clean (Traversal.inBranch m) := by
  intro c c' e hc hrun
  rw [Traversal.outcome_inBranch] at hrun
  obtain ⟨hresult, rfl⟩ := Prod.mk.inj hrun
  rw [(hframed c.push).escape_closeBranch hc]
  exact h c.push _ e rfl (Prod.ext hresult rfl)

end Clean
end Run

/-! ### Kinds -/

section

open Run

variable {p : Parts (Run Value)}

theorem quiet_execute (hs : ∀ e ∈ p.statements, Quiet e.2.meaning) (name : String) :
    Quiet (p.execute name) := by
  unfold Parts.execute
  split
  · exact .pure ()
  · exact (hs _ (mem_of_lookup ‹_›)).bind fun _ => .pure ()

theorem clean_execute (hs : ∀ e ∈ p.statements, Clean e.2.meaning) (name : String) :
    Clean (p.execute name) := by
  unfold Parts.execute
  split
  · exact Quiet.clean (.pure ())
  · exact (hs _ (mem_of_lookup ‹_›)).giving ()

theorem clean_flow : Clean p.executeFlow :=
  .bind (.lift _) fun _ _ _ _ _ h => nomatch h

theorem clean_arms (hv : ∀ e ∈ p.values, Quiet e.2.meaning)
    (hbranch : ∀ name, Clean (Traversal.inBranch (p.execute name))) (hasElse : Bool)
    (arms : List Nat) : Clean (p.executeArms hasElse arms) := by
  induction arms with
  | nil => exact .ite (hbranch _) (Quiet.clean (.pure ()))
  | cons i rest ih =>
    exact .bind (keepsEscape_reading hv (.evaluateCondition _)) fun _ => .ite (hbranch _) ih

theorem clean_kind {kind : Kind} (hv : kind ≠ .whileUntil → ∀ e ∈ p.values, Quiet e.2.meaning)
    (hframed : ∀ {α : Type} {m : Run α}, p.Steps .steering m → m.Framed)
    (hbranch : kind.isLoop = false → ∀ name, Clean (Traversal.inBranch (p.execute name))) :
    Clean (kind.evaluate limit p) := by
  by_cases hr : kind.reach = .steering
  · cases kind with
    | branch alwaysElse =>
      refine Clean.giving (.bind (.lift _) fun _ => ?_) Value.null
      exact clean_arms (hv nofun) (hbranch rfl) _ _
    | flow => exact clean_flow.giving Value.null
    | repeatTimes _ | whileUntil | countRange | forEach =>
      exact Quiet.clean (keepsEscape_loop rfl hv hframed)
    | _ => exact absurd hr (by decide)
  · refine Quiet.clean (.of_steps (kind.steps limit p) hr (hv ?_))
    rintro rfl
    exact hr rfl

end

/-! ### Blocks and chains -/

theorem quiet_branch {b : Block Kind}
    (hbodies : ∀ s ∈ b.statements, (evaluateChain limit s.chain).Quiet) (name : String) :
    Run.Quiet (Traversal.inBranch ((b.runParts limit).execute name)) := by
  refine .inBranch (quiet_execute ?_ name) (b.framed_steps limit (.execute rfl name))
  rw [Block.statements_runParts, List.forall_mem_map]
  exact hbodies

theorem clean_branch {b : Block Kind}
    (hbodies : ∀ s ∈ b.statements, (evaluateChain limit s.chain).Clean) (name : String) :
    Run.Clean (Traversal.inBranch ((b.runParts limit).execute name)) := by
  refine .inBranch (clean_execute ?_ name) (b.framed_steps limit (.execute rfl name))
  rw [Block.statements_runParts, List.forall_mem_map]
  exact hbodies

theorem clean_block {b : Block Kind}
    (hvalues : b.kind ≠ .whileUntil → ∀ s ∈ b.values, (evaluateChain limit s.chain).Quiet)
    (hbodies : b.kind.isLoop = false → ∀ s ∈ b.statements, (evaluateChain limit s.chain).Clean) :
    (b.evaluate limit).Clean := by
  rw [Block.evaluate_eq]
  refine clean_kind ?_ (b.framed_steps limit) fun hloop => clean_branch (hbodies hloop)
  rw [Block.values_runParts, List.forall_mem_map]
  exact hvalues

theorem clean_cons {b : Block Kind} {rest : List (Block Kind)} (hb : (b.evaluate limit).Clean)
    (hrest : (evaluateRest limit rest).Clean) :
    (evaluateChain limit (b :: rest)).Clean ∧ (evaluateRest limit (b :: rest)).Clean := by
  constructor
  · refine hb.bind_pending (fun v => hrest.giving v) fun v c hc => ⟨v, c, ?_⟩
    rw [outcome_bind, outcome_evaluateRest limit rest hc]
    rfl
  · refine Run.Clean.bind (fun _ hc => hc) fun c => .ite ?_ (Run.Quiet.clean (.pure ()))
    exact hb.bind_pending (fun _ => hrest) fun v c hc =>
      ⟨(), c, outcome_evaluateRest limit rest hc⟩

/-- Without escapes in value slots a chain fails with none pending, and it leaves one pending only
where it has an escape statement outside of loops. -/
theorem quiet_clean_evaluateChain (limit : Nat) (chain : List (Block Kind))
    (hleaks : chainLeaks chain = false) :
    (chainRaises chain = false →
        (evaluateChain limit chain).Quiet ∧ (evaluateRest limit chain).Quiet) ∧
      (evaluateChain limit chain).Clean ∧ (evaluateRest limit chain).Clean := by
  revert hleaks
  refine Block.chain_induction
    (P := fun b => b.leaks = false →
      (b.raises = false → (b.evaluate limit).Quiet) ∧ (b.evaluate limit).Clean)
    (Q := fun chain => chainLeaks chain = false →
      (chainRaises chain = false →
          (evaluateChain limit chain).Quiet ∧ (evaluateRest limit chain).Quiet) ∧
        (evaluateChain limit chain).Clean ∧ (evaluateRest limit chain).Clean) ?_ ?_ ?_ chain
  · intro b hvalues hbodies hleaks
    obtain ⟨hslots, hchains⟩ := Block.leaks_eq_false hleaks
    -- only a loop with a condition reads a slot in a scope of its own
    have hquiet (hkind : b.kind ≠ .whileUntil) :
        ∀ s ∈ b.values, (evaluateChain limit s.chain).Quiet := by
      intro s hs
      obtain ⟨hraises, hleaks⟩ := hslots hkind s hs
      exact ((hvalues s hs hleaks).1 hraises).1
    refine ⟨fun hraises => ?_, clean_block hquiet fun hloop s hs =>
      (hbodies s hs (hchains hloop s hs)).2.1⟩
    rw [Block.raises_eq, Bool.or_eq_false_iff, decide_eq_false_iff_not] at hraises
    obtain ⟨hflow, hraises⟩ := hraises
    refine keepsEscape_block hquiet (fun hloop => quiet_branch fun s hs => ?_) (absurd · hflow)
    rw [hloop, Bool.not_false, Bool.true_and, raisesInSlots_iff] at hraises
    exact ((hbodies s hs (hchains hloop s hs)).1 (hraises s hs)).1
  · exact fun _ => ⟨fun _ => ⟨.pure _, .pure _⟩, Run.Quiet.clean (.pure _), Run.Quiet.clean (.pure _)⟩
  · intro b rest hb hrest hleaks
    rw [chainLeaks, Bool.or_eq_false_iff] at hleaks
    obtain ⟨hquiet, hclean⟩ := hb hleaks.1
    obtain ⟨hrestquiet, -, hrestclean⟩ := hrest hleaks.2
    constructor
    · intro hraises
      rw [chainRaises, Bool.or_eq_false_iff] at hraises
      exact keepsEscape_cons (hquiet hraises.1) (hrestquiet hraises.2).2
    · exact clean_cons hclean hrestclean

/-! ### The escapes of other scopes -/

namespace Context

/-- The contexts have the same bindings and the same pending escape. Of the scopes around the innermost
one the escapes may differ. -/
structure Twin (c c' : Context Value) : Prop where
  scopes : c.scopes = c'.scopes
  escape : c.escape = c'.escape

theorem Twin.isRespected : IsRespected (fun _ => True) Twin where
  get? h _ := by rw [← get?_scopes, h.scopes, get?_scopes]
  escape h := h.escape
  set v h _ := ⟨by rw [scopes_set, h.scopes, scopes_set], by rw [escape_set, h.escape, escape_set]⟩
  setEscape e h := ⟨by rw [scopes_setEscape, h.scopes, scopes_setEscape],
    by rw [escape_setEscape, escape_setEscape]⟩
  push h := ⟨congrArg Scopes.push h.scopes, rfl⟩
  pop h hframe hframe' h₁ := ⟨by rw [scopes_pop, h₁.scopes, scopes_pop],
    by rw [hframe.escape_pop, h.escape, hframe'.escape_pop]⟩

theorem twin_of_scopes (hc : c.escape = .none) : c.Twin c.scopes.context :=
  ⟨(scopes_context _).symm, hc.trans (escape_context _).symm⟩

end Context

/-! ### Workspaces -/

namespace Workspace

def headed (w : Workspace Kind) : Workspace Kind := ⟨w.chains.modifyHead (List.take 1)⟩

theorem outcome_evaluateFrom_cons (limit : Nat) (last : Value) (chain : List (Block Kind))
    (rest : List (List (Block Kind))) (c : Context Value) :
    outcome (evaluateFrom limit last (chain :: rest)) c =
      match outcome (evaluateChain limit chain) c with
      | (.ok v, c₁) => outcome (evaluateFrom limit v rest) (c₁.setEscape .none)
      | (.error e, c₁) => (.error e, c₁) := by
  rw [evaluateFrom, outcome_bind]
  obtain ⟨e | v, c₁⟩ := outcome (evaluateChain limit chain) c
  · rfl
  · rfl

theorem escape_of_evaluateFrom_ok {chains : List (List (Block Kind))} {last v : Value}
    {c' : Context Value} (hc : c.escape = .none)
    (h : outcome (evaluateFrom limit last chains) c = (.ok v, c')) : c'.escape = .none := by
  induction chains generalizing last c with
  | nil =>
    obtain ⟨-, rfl⟩ := pure_eq_ok.1 h
    exact hc
  | cons chain rest ih =>
    rw [outcome_evaluateFrom_cons] at h
    generalize outcome (evaluateChain limit chain) c = x at h
    obtain ⟨e | w, c₁⟩ := x
    · exact nomatch h
    · exact ih (Context.escape_setEscape c₁ .none) h

theorem quiet_evaluateFrom (limit : Nat) {chains : List (List (Block Kind))}
    (h : chains.any chainLeaks = false) (last : Value) : (evaluateFrom limit last chains).Quiet := by
  induction chains generalizing last with
  | nil => exact .pure last
  | cons chain rest ih =>
    rw [List.any_cons, Bool.or_eq_false_iff] at h
    obtain ⟨hchain, hrest⟩ := h
    intro c hc
    have hclean := (quiet_clean_evaluateChain limit chain hchain).2.1 c
    rw [outcome_evaluateFrom_cons]
    generalize outcome (evaluateChain limit chain) c = x at hclean ⊢
    obtain ⟨e | v, c₁⟩ := x
    · exact hclean c₁ e hc rfl
    · exact ih hrest v _ (Context.escape_setEscape c₁ .none)

/-- Where no escape is pending, a run gives what it gives in a new context with the same bindings. -/
theorem evaluate_eq_of_quiet (limit : Nat) (w : Workspace Kind) (hc : c.escape = .none) :
    (outcome (w.evaluate limit) c).1 = (outcome (w.evaluate limit) c.scopes.context).1 ∧
      (outcome (w.evaluate limit) c).2.scopes =
        (outcome (w.evaluate limit) c.scopes.context).2.scopes := by
  have hrespects : (evaluateFrom limit .null w.chains).Respects Context.Twin :=
    respects_evaluateFrom Context.Twin.isRespected limit
      (fun chain _ => Block.allOf_of_forall (fun _ _ _ => trivial) chain) .null
  obtain ⟨hresult, htwin⟩ := hrespects _ _ (Context.twin_of_scopes hc)
  exact ⟨hresult, htwin.scopes⟩

/-- Where an escape is pending, a run skips all blocks of its first chain but the first. -/
theorem evaluate_eq_of_pending (limit : Nat) (w : Workspace Kind) (hc : c.escape ≠ .none) :
    outcome (w.evaluate limit) c = outcome (w.headed.evaluate limit) c := by
  obtain ⟨_ | ⟨chain, rest⟩⟩ := w
  · rfl
  · show outcome (evaluateFrom limit .null (chain :: rest)) c =
      outcome (evaluateFrom limit .null (chain.take 1 :: rest)) c
    rw [outcome_evaluateFrom_cons, outcome_evaluateFrom_cons, outcome_evaluateChain_pending chain hc]

/-- A run that starts without a pending escape keeps the frame of its context, and it leaves an escape
only where it fails and an escape statement may run for the value of a slot outside of all loops. If it
leaves none, the next run in the same context is one from the same bindings in a new context. If it
leaves one, the next run skips the blocks behind the first one of its first chain. -/
theorem evaluate_leaves_escape_only_from_values (limit : Nat) (w : Workspace Kind)
    {c c' : Context Value} {x : Except Halt Value} (hc : c.escape = .none)
    (h : outcome (w.evaluate limit) c = (x, c')) :
    c.Frame c' ∧ c'.depth = c.depth ∧
      ((∃ v, x = .ok v) ∨ w.leaks = false → c'.escape = .none) ∧
      (c'.escape = .none → ∀ (limit' : Nat) (next : Workspace Kind),
        (outcome (next.evaluate limit') c').1 =
            (outcome (next.evaluate limit') c'.scopes.context).1 ∧
          (outcome (next.evaluate limit') c').2.scopes =
            (outcome (next.evaluate limit') c'.scopes.context).2.scopes) ∧
      (c'.escape ≠ .none → ∀ (limit' : Nat) (next : Workspace Kind),
        outcome (next.evaluate limit') c' = outcome (next.headed.evaluate limit') c') := by
  have hframe : c.Frame c' := by
    have hrun := keeps_evaluateFrom Context.Frame.isKept limit w.chains .null c
    rw [show outcome (evaluateFrom limit .null w.chains) c = (x, c') from h] at hrun
    exact hrun
  refine ⟨hframe, hframe.depth, ?_, fun hnone limit' next => evaluate_eq_of_quiet limit' next hnone,
    fun hpending limit' next => evaluate_eq_of_pending limit' next hpending⟩
  rintro (⟨v, rfl⟩ | hleaks)
  · exact escape_of_evaluateFrom_ok hc h
  · have hquiet := quiet_evaluateFrom limit hleaks .null c hc
    rw [show outcome (evaluateFrom limit .null w.chains) c = (x, c') from h] at hquiet
    exact hquiet

def brokenSum : Block Kind :=
  let escape : Block Kind :=
    ⟨.flow, "controls_flow_statements", "f", [("FLOW", "BREAK")], [], [], [], []⟩
  let one : Block Kind := ⟨.number, "math_number", "n", [("NUM", "1")], [], [], [], []⟩
  let sum : Block Kind := ⟨.arithmetic, "math_arithmetic", "m", [("OP", "ADD")],
    [⟨"A", [escape]⟩, ⟨"B", [one]⟩], [], [], []⟩
  ⟨.set, "variables_set", "s", [("VAR", "x")], [⟨"VALUE", [sum]⟩], [], [], []⟩

def loopedSum : Workspace Kind :=
  let condition : Block Kind := ⟨.boolean, "logic_boolean", "b", [("BOOL", "TRUE")], [], [], [], []⟩
  ⟨[[⟨.whileUntil, "controls_whileUntil", "w", [("MODE", "WHILE")], [⟨"BOOL", [condition]⟩],
    [⟨"DO", [brokenSum]⟩], [], []⟩]]⟩

def twoAssignments : Workspace Kind :=
  let assignment (name : String) : Block Kind := ⟨.set, "variables_set", "s", [("VAR", name)],
    [⟨"VALUE", [⟨.boolean, "logic_boolean", "b", [("BOOL", "TRUE")], [], [], [], []⟩]⟩], [], [], []⟩
  ⟨[[assignment "a", assignment "b"]]⟩

/-- The loop closes the scope in which the sum fails, and the escape with it. The one in the root does
not show in the scope above it. -/
theorem loopedSum_leaves_no_escape :
    let failure : Halt := .error (.mismatch "Number" "Null")
    let start : Context Value := { inner := [{}], root := { escape := .continuing } }
    start.escape = .none ∧ outcome (loopedSum.evaluate 1) start = (.error failure, start) ∧
      loopedSum.leaks = false ∧ start.Frame start ∧
      (outcome (twoAssignments.evaluate 1) start).2.scopes =
        (outcome (twoAssignments.evaluate 1) start.scopes.context).2.scopes := by
  intro failure start
  have hrun : outcome (loopedSum.evaluate 1) start = (.error failure, start) := by
    with_unfolding_all rfl
  have hleaks : loopedSum.leaks = false := by decide
  obtain ⟨hframe, -, hnone, hnext, -⟩ := evaluate_leaves_escape_only_from_values 1 loopedSum rfl hrun
  exact ⟨rfl, hrun, hleaks, hframe, (hnext (hnone (.inr hleaks)) 1 twoAssignments).2⟩

/-- Outside of a loop the escape of the sum is still pending after the run that failed, and the next
run in the same context skips the second of its assignments. -/
theorem brokenSum_escape_outlives_run :
    let failure : Halt := .error (.mismatch "Number" "Null")
    let left : Context Value := { root := { escape := .breaking } }
    let one : Context Value := .ofBindings [("a", .boolean true)]
    let both : Context Value := .ofBindings [("a", .boolean true), ("b", .boolean true)]
    ({} : Context Value).escape = .none ∧
      outcome (Workspace.evaluate 1 ⟨[[brokenSum]]⟩) {} = (.error failure, left) ∧
      left.escape = .breaking ∧
      outcome (twoAssignments.evaluate 1) left = (.ok .null, one) ∧
      outcome (twoAssignments.evaluate 1) {} = (.ok .null, both) := by
  refine ⟨rfl, ?_, rfl, ?_, ?_⟩
  · cbv
  · with_unfolding_all rfl
  · with_unfolding_all rfl

end Workspace
end Blockwork
