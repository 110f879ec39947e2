import Mathlib
import Blockwork.Workspace

/-! What work on a state gives, and what each step of a traversal contributes. A bind is opened by
`outcome_bind`; work that is known to give a result is taken apart by `bind_eq_ok`. -/

namespace Blockwork

section Outcome

variable {ε σ α β : Type}

/-- The result of work that starts in a state, and the state it leaves. -/
def outcome (m : ExceptT ε (StateM σ) α) (s : σ) : Except ε α × σ := m.run.run s

@[simp] theorem outcome_pure (a : α) (s : σ) :
    outcome (pure a : ExceptT ε (StateM σ) α) s = (.ok a, s) := rfl

@[simp] theorem outcome_throw (e : ε) (s : σ) :
    outcome (throw e : ExceptT ε (StateM σ) α) s = (.error e, s) := rfl

theorem outcome_bind (m : ExceptT ε (StateM σ) α) (f : α → ExceptT ε (StateM σ) β) (s : σ) :
    outcome (m >>= f) s = match outcome m s with
      | (.ok a, s') => outcome (f a) s'
      | (.error e, s') => (.error e, s') := by
  show (m >>= f) s = match m s with
      | (.ok a, s') => f a s'
      | (.error e, s') => (.error e, s')
  simp only [bind, ExceptT.bind, ExceptT.mk, StateT.bind, ExceptT.bindCont]
  rcases m s with ⟨_ | _, _⟩ <;> rfl

@[simp] theorem outcome_get (s : σ) :
    outcome (MonadState.get : ExceptT ε (StateM σ) σ) s = (.ok s, s) := rfl

variable {s s' : σ}

theorem bind_eq_ok {m : ExceptT ε (StateM σ) α} {f : α → ExceptT ε (StateM σ) β} {b : β} :
    outcome (m >>= f) s = (.ok b, s') ↔
      ∃ a s₁, outcome m s = (.ok a, s₁) ∧ outcome (f a) s₁ = (.ok b, s') := by
  rw [outcome_bind]
  rcases outcome m s with ⟨e | a, s₁⟩
  · simp
  · constructor
    · exact fun h => ⟨a, s₁, rfl, h⟩
    · rintro ⟨_, _, h, hf⟩
      obtain ⟨rfl, rfl⟩ : a = _ ∧ s₁ = _ := by simpa using h
      exact hf

theorem pure_eq_ok {a b : α} :
    outcome (pure a : ExceptT ε (StateM σ) α) s = (.ok b, s') ↔ a = b ∧ s = s' := by simp

theorem throw_eq_ok {e : ε} {b : α} :
    outcome (throw e : ExceptT ε (StateM σ) α) s = (.ok b, s') ↔ False := by simp

theorem map_eq_ok {f : α → β} {m : ExceptT ε (StateM σ) α} {b : β} :
    outcome (f <$> m) s = (.ok b, s') ↔ ∃ a, outcome m s = (.ok a, s') ∧ f a = b := by
  show outcome (m >>= fun a => pure (f a)) s = _ ↔ _
  rw [bind_eq_ok]
  simp

def Gives (P : α → Prop) (m : ExceptT ε (StateM σ) α) : Prop :=
  ∀ s a s', outcome m s = (.ok a, s') → P a

namespace Gives

variable {P : α → Prop} {Q : β → Prop}

theorem pure {a : α} (h : P a) : Gives P (Pure.pure a : ExceptT ε (StateM σ) α) := by
  intro s b s' hb
  obtain ⟨rfl, -⟩ := pure_eq_ok.1 hb
  exact h

theorem fail (e : ε) : Gives P (throw e : ExceptT ε (StateM σ) α) :=
  fun _ _ _ h => (throw_eq_ok.1 h).elim

theorem bind {m : ExceptT ε (StateM σ) β} {f : β → ExceptT ε (StateM σ) α} (hm : Gives Q m)
    (hf : ∀ b, Q b → Gives P (f b)) : Gives P (m >>= f) := by
  intro s a s' h
  obtain ⟨b, s₁, hb, ha⟩ := bind_eq_ok.1 h
  exact hf b (hm s b s₁ hb) s₁ a s' ha

theorem of_last {m : ExceptT ε (StateM σ) β} {f : β → ExceptT ε (StateM σ) α}
    (hf : ∀ b, Gives P (f b)) : Gives P (m >>= f) :=
  .bind (Q := fun _ => True) (fun _ _ _ _ => trivial) fun b _ => hf b

theorem ite {p : Prop} [Decidable p] {m m' : ExceptT ε (StateM σ) α} (h : Gives P m)
    (h' : Gives P m') : Gives P (if p then m else m') := by
  split
  · exact h
  · exact h'

end Gives
end Outcome

namespace Traversal

variable {ε V α : Type}

theorem outcome_inBranch (m : Traversal ε V α) (c : Context V) :
    outcome (inBranch m) c = ((outcome m c.push).1, (outcome m c.push).2.closeBranch) := rfl

theorem outcome_inLoop (m : Traversal ε V α) (c : Context V) :
    outcome (inLoop m) c = ((outcome m c.push).1, (outcome m c.push).2.closeLoop) := rfl

theorem inBranch_eq_ok {m : Traversal ε V α} {c c' : Context V} {a : α}
    (h : outcome (inBranch m) c = (.ok a, c')) :
    ∃ c₁, outcome m c.push = (.ok a, c₁) ∧ c₁.closeBranch = c' := by
  rw [outcome_inBranch] at h
  obtain ⟨hm, hc⟩ := Prod.mk.inj h
  exact ⟨_, Prod.ext hm rfl, hc⟩

theorem inLoop_eq_ok {m : Traversal ε V α} {c c' : Context V} {a : α}
    (h : outcome (inLoop m) c = (.ok a, c')) :
    ∃ c₁, outcome m c.push = (.ok a, c₁) ∧ c₁.closeLoop = c' := by
  rw [outcome_inLoop] at h
  obtain ⟨hm, hc⟩ := Prod.mk.inj h
  exact ⟨_, Prod.ext hm rfl, hc⟩

end Traversal

namespace Gives

variable {ε V α : Type} {P : α → Prop} {m : Traversal ε V α}

theorem inBranch (h : Gives P m) : Gives P (Traversal.inBranch m) := fun c a _ ha =>
  have ⟨c₁, hm, _⟩ := Traversal.inBranch_eq_ok ha
  h c.push a c₁ hm

theorem inLoop (h : Gives P m) : Gives P (Traversal.inLoop m) := fun c a _ ha =>
  have ⟨c₁, hm, _⟩ := Traversal.inLoop_eq_ok ha
  h c.push a c₁ hm

end Gives

namespace Traversal

variable {ε V α : Type}

@[simp] theorem outcome_takeEscape (c : Context V) :
    outcome (takeEscape : Traversal ε V Escape) c = (.ok c.escape, c.setEscape .none) := rfl

end Traversal

namespace Run

variable {α : Type} {c c' : Context Value}

theorem outcome_lift (x : Except EngineError α) (c : Context Value) :
    outcome (liftM x : Run α) c = (x.mapError .error, c) := by
  cases x <;> rfl

theorem lift_eq_ok {x : Except EngineError α} {a : α} :
    outcome (liftM x : Run α) c = (.ok a, c') ↔ x = .ok a ∧ c = c' := by
  rw [outcome_lift]
  cases x <;> simp [Except.mapError]

@[simp] theorem outcome_get (name : String) (c : Context Value) :
    outcome (Run.get name) c = (.ok ((c.get? name).getD .null), c) := rfl

@[simp] theorem outcome_set (name : String) (v : Value) (c : Context Value) :
    outcome (Run.set name v) c = (.ok (), c.set name v) := rfl

theorem outcome_iterate_succ {σ : Type} (step : σ → Run (Option σ)) (limit : Nat) (s : σ)
    (c : Context Value) :
    outcome (iterate step (limit + 1) s) c = match outcome (step s) c with
      | (.ok (some s), c) => outcome (iterate step limit s) c
      | (.ok none, c) => (.ok (), c)
      | (.error e, c) => (.error e, c) := rfl

end Run

namespace Workspace

open Target

variable {κ : Type} [Behaviour κ]

theorem compile_eq_ok {w : Workspace κ} {program : Program} (h : w.compile = .ok program) :
    ∃ c, outcome (compileChains w.chains) {} = (.ok program.body, c) ∧
      program.declared = c.root.bindings.names := by
  have hgenerate : outcome w.generate {} = (.ok program, (outcome w.generate {}).2) :=
    Prod.ext h rfl
  obtain ⟨body, c, hbody, hdeclared⟩ := bind_eq_ok.1 hgenerate
  obtain ⟨c', c₁, hget, hpure⟩ := bind_eq_ok.1 hdeclared
  obtain ⟨hc, rfl⟩ := Prod.mk.inj hget
  obtain rfl := Except.ok.inj hc
  obtain ⟨rfl, -⟩ := pure_eq_ok.1 hpure
  exact ⟨c, hbody, rfl⟩

end Workspace
end Blockwork
