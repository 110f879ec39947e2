import Blockwork.Proofs.Context.Frame

/-! Runs side by side. Two runs of a chain start in contexts that are related. If the same step keeps
such contexts related, and none of what a step reads tells them apart, both runs give the same and end
in contexts that are related. -/

namespace Blockwork

namespace Context

/-- Related contexts give the same values to these names, have the same escape pending, and stay
related when both take the same step. -/
structure IsRespected (names : String → Prop) (S : Context Value → Context Value → Prop) : Prop where
  get? : ∀ {c c' name}, S c c' → names name → c.get? name = c'.get? name
  escape : ∀ {c c'}, S c c' → c.escape = c'.escape
  set : ∀ {c c' name} (v : Value), S c c' → names name → S (c.set name v) (c'.set name v)
  setEscape : ∀ {c c'} (e : Escape), S c c' → S (c.setEscape e) (c'.setEscape e)
  push : ∀ {c c'}, S c c' → S c.push c'.push
  pop : ∀ {c c' c₁ c₁'}, S c c' → c.push.Frame c₁ → c'.push.Frame c₁' → S c₁ c₁' → S c₁.pop c₁'.pop

theorem IsRespected.closeBranch {names : String → Prop} {S : Context Value → Context Value → Prop}
    (hS : IsRespected names S) {c c' c₁ c₁' : Context Value} (h : S c c') (hframe : c.push.Frame c₁)
    (hframe' : c'.push.Frame c₁') (h₁ : S c₁ c₁') : S c₁.closeBranch c₁'.closeBranch := by
  have hpop := hS.pop h hframe hframe' h₁
  rw [Context.closeBranch, Context.closeBranch, hS.escape h₁]
  split
  · exact hpop
  · exact hS.setEscape _ hpop

end Context

def Run.Respects {α : Type} (S : Context Value → Context Value → Prop) (m : Run α) : Prop :=
  ∀ c c' : Context Value, S c c' →
    (outcome m c).1 = (outcome m c').1 ∧ S (outcome m c).2 (outcome m c').2

namespace Run.Respects

variable {α β : Type} {names : String → Prop} {S : Context Value → Context Value → Prop}

theorem pure (a : α) : Respects S (Pure.pure a) := fun _ _ h => ⟨rfl, h⟩

theorem bind {m : Run α} {f : α → Run β} (hm : Respects S m) (hf : ∀ a, Respects S (f a)) :
    Respects S (m >>= f) := by
  intro c c' h
  have hfirst := hm c c' h
  rw [outcome_bind, outcome_bind]
  generalize outcome m c = x at hfirst ⊢
  generalize outcome m c' = x' at hfirst ⊢
  obtain ⟨result, c₁⟩ := x
  obtain ⟨result', c₁'⟩ := x'
  obtain ⟨rfl, h₁⟩ : result = result' ∧ S c₁ c₁' := hfirst
  cases result with
  | error e => exact ⟨rfl, h₁⟩
  | ok a => exact hf a c₁ c₁' h₁

theorem iterate {σ : Type} {step : σ → Run (Option σ)} (h : ∀ s, Respects S (step s)) (limit : Nat)
    (s : σ) : Respects S (Run.iterate step limit s) := by
  induction limit generalizing s with
  | zero => exact fun _ _ h => ⟨rfl, h⟩
  | succ limit ih =>
    intro c c' hc
    have hfirst := h s c c' hc
    rw [outcome_iterate_succ, outcome_iterate_succ]
    generalize outcome (step s) c = x at hfirst ⊢
    generalize outcome (step s) c' = x' at hfirst ⊢
    obtain ⟨result, c₁⟩ := x
    obtain ⟨result', c₁'⟩ := x'
    obtain ⟨rfl, h₁⟩ : result = result' ∧ S c₁ c₁' := hfirst
    obtain e | _ | s' := result
    · exact ⟨rfl, h₁⟩
    · exact ⟨rfl, h₁⟩
    · exact ih s' c₁ c₁' h₁

variable (hS : Context.IsRespected names S)
include hS

theorem takeEscape : Respects S Traversal.takeEscape := fun _ _ h =>
  ⟨congrArg Except.ok (hS.escape h), hS.setEscape .none h⟩

theorem poll {m : Run Unit} (hm : Respects S m) : Respects S
    (MonadState.get >>= fun c : Context Value => if c.escape = .none then m else Pure.pure ()) := by
  intro c c' hc
  show (outcome (if c.escape = .none then m else _) c).1 =
    (outcome (if c'.escape = .none then m else _) c').1 ∧
      S (outcome (if c.escape = .none then m else _) c).2
        (outcome (if c'.escape = .none then m else _) c').2
  rw [← hS.escape hc]
  split
  · exact hm c c' hc
  · exact ⟨rfl, hc⟩

theorem of_steps {p : Parts (Run Value)} {r : Reach} {m : Run α} (h : p.Steps r m)
    (hframed : ∀ {α : Type} {m : Run α}, p.Steps r m → m.Framed)
    (hname : ∀ name, p.variable = .ok name → names name)
    (hv : ∀ e ∈ p.values, Respects S e.2.meaning)
    (hs : ∀ e ∈ p.statements, Respects S e.2.meaning) : Respects S m := by
  induction h with
  | pure a => exact .pure a
  | fail h => exact fun _ _ hc => ⟨rfl, hc⟩
  | bind _ _ hm hf => exact hm.bind hf
  | get name hvariable =>
    refine fun c c' hc => ⟨?_, hc⟩
    rw [outcome_get, outcome_get, hS.get? hc (hname name hvariable)]
  | value hmem => exact hv _ hmem
  | set name v _ hvariable => exact fun c c' hc => ⟨rfl, hS.set v hc (hname name hvariable)⟩
  | statement _ hmem => exact hs _ hmem
  | raise e _ => exact fun c c' hc => ⟨rfl, hS.setEscape e hc⟩
  | takeEscape _ => exact takeEscape hS
  | inBranch _ hm ih =>
    intro c c' hc
    obtain ⟨hresult, hc₁⟩ := ih c.push c'.push (hS.push hc)
    exact ⟨hresult, hS.closeBranch hc (hframed hm c.push) (hframed hm c'.push) hc₁⟩
  | inLoop _ hm ih =>
    intro c c' hc
    obtain ⟨hresult, hc₁⟩ := ih c.push c'.push (hS.push hc)
    exact ⟨hresult, hS.pop hc (hframed hm c.push) (hframed hm c'.push) hc₁⟩
  | iterate limit s _ _ ih => exact iterate ih limit s

end Run.Respects

/-! ### Chains and workspaces -/

def Block.Mentions (names : String → Prop) (b : Block Kind) : Prop :=
  ∀ name, b.fields.get? "VAR" = some name → names name

section

variable {names : String → Prop} {S : Context Value → Context Value → Prop}
  (hS : Context.IsRespected names S) (limit : Nat)

include hS

theorem respects_evaluateChain {chain : List (Block Kind)}
    (h : Block.AllOf (Block.Mentions names) chain) : (evaluateChain limit chain).Respects S :=
  (evaluateChain_of_blocks (C := Run.Respects S) .pure .bind (.poll hS)
    (fun b hb => .of_steps hS (b.kind.steps limit (b.runParts limit)) (b.framed_steps limit)
      fun name hname => hb name (Parts.field_eq_ok.1 hname)) h).1

theorem respects_evaluateFrom {chains : List (List (Block Kind))}
    (h : ∀ chain ∈ chains, Block.AllOf (Block.Mentions names) chain) (last : Value) :
    (Workspace.evaluateFrom limit last chains).Respects S :=
  evaluateFrom_of_chains (C := Run.Respects S) .pure .bind (.takeEscape hS)
    (fun chain hchain => respects_evaluateChain hS limit (h chain hchain)) last

end
end Blockwork
