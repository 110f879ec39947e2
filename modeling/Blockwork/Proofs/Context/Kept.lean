import Blockwork.Proofs.Interpreter.Steps

/-! Relations between contexts that hold across runs. One that holds across assignments, escapes and
the closing of scopes holds across every chain of standard kinds. -/

namespace Blockwork

namespace Context

variable {V : Type}

structure IsKept (R : Context V → Context V → Prop) : Prop where
  refl : ∀ c, R c c
  trans : ∀ {c₁ c₂ c₃}, R c₁ c₂ → R c₂ c₃ → R c₁ c₃
  set : ∀ c name v, R c (c.set name v)
  setEscape : ∀ c e, R c (c.setEscape e)
  closeBranch : ∀ {c c₁}, R c.push c₁ → R c c₁.closeBranch
  closeLoop : ∀ {c c₁}, R c.push c₁ → R c c₁.closeLoop

theorem IsKept.isPreorder {R : Context V → Context V → Prop} (h : IsKept R) :
    IsPreorder (Context V) R where
  refl := h.refl
  trans _ _ _ := h.trans

end Context

open Context

namespace Run

def Keeps {α : Type} (R : Context Value → Context Value → Prop) (m : Run α) : Prop :=
  ∀ c, R c (outcome m c).2

namespace Keeps

variable {α β : Type} {R : Context Value → Context Value → Prop}

section

variable (hR : IsPreorder (Context Value) R)
include hR

theorem pure (a : α) : Keeps R (Pure.pure a : Run α) := fun c => hR.refl c

theorem bind {m : Run α} {f : α → Run β} (hm : Keeps R m) (hf : ∀ a, Keeps R (f a)) :
    Keeps R (m >>= f) := by
  intro c
  have h := hm c
  rw [outcome_bind]
  generalize outcome m c = x at h ⊢
  obtain ⟨e | a, c₁⟩ := x
  · exact h
  · exact hR.trans _ _ _ h (hf a c₁)

theorem iterate {σ : Type} {step : σ → Run (Option σ)}
    (h : ∀ s, Keeps R (step s)) (limit : Nat) (s : σ) : Keeps R (Run.iterate step limit s) := by
  induction limit generalizing s with
  | zero => exact fun c => hR.refl c
  | succ limit ih =>
    intro c
    have hs := h s c
    rw [outcome_iterate_succ]
    generalize outcome (step s) c = x at hs ⊢
    obtain ⟨e | _ | s', c₁⟩ := x
    · exact hs
    · exact hs
    · exact hR.trans _ _ _ hs (ih s' c₁)

theorem poll {m : Run Unit} (hm : Keeps R m) : Keeps R
    (MonadState.get >>= fun c : Context Value => if c.escape = .none then m else Pure.pure ()) := by
  refine bind hR (fun c => hR.refl c) fun c => ?_
  split
  · exact hm
  · exact fun c => hR.refl c

end

theorem of_steps (hR : IsKept R) {p : Parts (Run Value)} {r : Reach} {m : Run α}
    (h : p.Steps r m) (hv : ∀ e ∈ p.values, Keeps R e.2.meaning)
    (hs : ∀ e ∈ p.statements, Keeps R e.2.meaning) : Keeps R m := by
  induction h with
  | pure a => exact .pure hR.isPreorder a
  | fail h => exact fun c => hR.refl c
  | bind _ _ hm hf => exact bind hR.isPreorder hm hf
  | get name => exact fun c => hR.refl c
  | value hmem => exact hv _ hmem
  | set name v _ => exact fun c => hR.set c name v
  | statement _ hmem => exact hs _ hmem
  | raise e _ => exact fun c => hR.setEscape c e
  | takeEscape _ => exact fun c => hR.setEscape c .none
  | inBranch _ _ ih => exact fun c => hR.closeBranch (ih c.push)
  | inLoop _ _ ih => exact fun c => hR.closeLoop (ih c.push)
  | iterate limit s _ _ ih => exact iterate hR.isPreorder ih limit s

end Keeps
end Run

variable {R : Context Value → Context Value → Prop}

theorem keeps_evaluateChain (hR : IsKept R) (limit : Nat) (chain : List (Block Kind)) :
    Run.Keeps R (evaluateChain limit chain) ∧ Run.Keeps R (evaluateRest limit chain) :=
  evaluateChain_of_blocks (C := Run.Keeps R) (P := fun _ => True) (.pure hR.isPreorder)
    (.bind hR.isPreorder) (.poll hR.isPreorder)
    (fun b _ => .of_steps hR (b.kind.steps limit (b.runParts limit)))
    (Block.allOf_of_forall (fun _ => trivial) chain)

theorem keeps_evaluateFrom (hR : IsKept R) (limit : Nat) (chains : List (List (Block Kind)))
    (last : Value) : Run.Keeps R (Workspace.evaluateFrom limit last chains) :=
  evaluateFrom_of_chains (C := Run.Keeps R) (.pure hR.isPreorder) (.bind hR.isPreorder)
    (fun c => hR.setEscape c .none) (fun chain _ => (keeps_evaluateChain hR limit chain).1) last

end Blockwork
