import Blockwork.Proofs.Interpreter.Structured

/-! Contexts without their escapes: what each operation does to the bindings alone, and which steps
of a run only read them. -/

namespace Blockwork

namespace Context

variable {V : Type}

theorem current_scopes (c : Context V) : c.scopes.current = c.current.bindings := by
  obtain ⟨_ | ⟨scope, rest⟩, root⟩ := c <;> rfl

theorem get?_scopes (c : Context V) (name : String) : c.scopes.get? name = c.get? name := by
  rw [Scopes.get?, current_scopes]
  rfl

theorem scopes_setEscape (c : Context V) (e : Escape) : (c.setEscape e).scopes = c.scopes := by
  obtain ⟨_ | ⟨scope, rest⟩, root⟩ := c <;> rfl

theorem scopes_setCurrent (c : Context V) (name : String) (v : V) :
    (c.setCurrent name v).scopes = c.scopes.setCurrent name v := by
  obtain ⟨_ | ⟨scope, rest⟩, root⟩ := c <;> rfl

theorem scopes_set (c : Context V) (name : String) (v : V) :
    (c.set name v).scopes = c.scopes.set name v := by
  rw [Context.set, Scopes.set, current_scopes, apply_ite Context.scopes, apply_ite Context.scopes,
    scopes_setCurrent]
  rfl

theorem scopes_pop (c : Context V) : c.pop.scopes = c.scopes.pop := by
  obtain ⟨_ | ⟨scope, rest⟩, root⟩ := c <;> rfl

theorem scopes_closeBranch (c : Context V) : c.closeBranch.scopes = c.scopes.pop := by
  rw [closeBranch, apply_ite Context.scopes, scopes_setEscape, ite_self, scopes_pop]

@[simp] theorem scopes_context (s : Scopes V) : s.context.scopes = s := by
  simp [scopes, Scopes.context, Function.comp_def]

theorem escape_setEscape (c : Context V) (e : Escape) : (c.setEscape e).escape = e := by
  obtain ⟨_ | ⟨scope, rest⟩, root⟩ := c <;> rfl

theorem escape_setCurrent (c : Context V) (name : String) (v : V) :
    (c.setCurrent name v).escape = c.escape := by
  obtain ⟨_ | ⟨scope, rest⟩, root⟩ := c <;> rfl

theorem escape_declare (c : Context V) (name : String) (v : V) :
    (c.declare name v).escape = c.escape := by
  obtain ⟨_ | ⟨scope, rest⟩, root⟩ := c <;> rfl

theorem escape_set (c : Context V) (name : String) (v : V) :
    (c.set name v).escape = c.escape := by
  unfold Context.set
  split
  · exact escape_setCurrent c name v
  · split
    · exact escape_declare c name v
    · exact escape_setCurrent c name v

@[simp] theorem escape_context (s : Scopes V) : s.context.escape = .none := by
  obtain ⟨_ | ⟨scope, rest⟩, root⟩ := s <;> rfl

theorem Frame.escape_pop {c c₁ : Context V} (h : c.push.Frame c₁) : c₁.pop.escape = c.escape := by
  have hinner : c₁.pop.inner = c.inner := h.between
  have hroot : c₁.root.escape = c.root.escape := h.rootEscape (by simp [push, Context.depth])
  rw [escape, current, hinner, escape, current]
  cases c.inner with
  | nil => exact hroot
  | cons scope rest => rfl

theorem Frame.escape_closeBranch {c c₁ : Context V} (h : c.push.Frame c₁)
    (hc : c.escape = .none) : c₁.closeBranch.escape = c₁.escape := by
  unfold Context.closeBranch
  split
  · rw [h.escape_pop, hc]
    exact (‹c₁.escape = .none›).symm
  · exact escape_setEscape ..

end Context

namespace Run

variable {α β : Type}

structure Reads (m : Run α) : Prop where
  context : ∀ c, (outcome m c).2 = c
  result : ∀ c c' : Context Value, (∀ name, c.get? name = c'.get? name) →
    (outcome m c).1 = (outcome m c').1

namespace Reads

theorem pure (a : α) : Reads (Pure.pure a : Run α) := ⟨fun _ => rfl, fun _ _ _ => rfl⟩

theorem outcome_eq {m : Run α} (h : Reads m) (c : Context Value) :
    outcome m c = ((outcome m c).1, c) := Prod.ext rfl (h.context c)

theorem bind {m : Run α} {f : α → Run β} (hm : Reads m) (hf : ∀ a, Reads (f a)) :
    Reads (m >>= f) := by
  have key : ∀ c, outcome (m >>= f) c = match (outcome m c).1 with
      | .ok a => outcome (f a) c
      | .error e => (.error e, c) := by
    intro c
    rw [outcome_bind, hm.outcome_eq c]
    cases (outcome m c).1 <;> rfl
  refine ⟨fun c => ?_, fun c c' h => ?_⟩
  · rw [key]
    cases (outcome m c).1 with
    | error e => rfl
    | ok a => exact (hf a).context c
  · rw [key, key, hm.result c c' h]
    cases (outcome m c').1 with
    | error e => rfl
    | ok a => exact (hf a).result c c' h

theorem of_steps {p : Parts (Run Value)} {m : Run α} (h : p.Steps .reading m)
    (hv : ∀ e ∈ p.values, Reads e.2.meaning) : Reads m := by
  induction h with
  | pure a => exact .pure a
  | fail h => exact ⟨fun _ => rfl, fun _ _ _ => rfl⟩
  | bind _ _ hm hf => exact hm.bind hf
  | get name =>
    refine ⟨fun _ => rfl, fun c c' h => ?_⟩
    rw [outcome_get, outcome_get, h name]
  | value hmem => exact hv _ hmem
  | set _ _ hr => exact absurd rfl hr
  | statement hr | raise _ hr | takeEscape hr | inBranch hr | inLoop hr | iterate _ _ hr =>
    exact absurd hr (by decide)

end Reads

theorem Reads.framed {m : Run α} (h : Reads m) : Framed m := by
  intro c
  rw [h.context c]
  exact .refl c

def Assigns (m : Run α) : Prop := ∀ c c' : Context Value, c.scopes = c'.scopes →
  (outcome m c).1 = (outcome m c').1 ∧ (outcome m c).2.scopes = (outcome m c').2.scopes ∧
    (outcome m c).2.escape = c.escape

theorem Reads.assigns {m : Run α} (h : Reads m) : Assigns m := by
  intro c c' hs
  refine ⟨h.result c c' fun name => ?_, ?_, ?_⟩
  · rw [← Context.get?_scopes, hs, Context.get?_scopes]
  · rw [h.context, h.context, hs]
  · rw [h.context]

namespace Assigns

theorem bind {m : Run α} {f : α → Run β} (hm : Assigns m) (hf : ∀ a, Assigns (f a)) :
    Assigns (m >>= f) := by
  intro c c' hs
  have h := hm c c' hs
  rw [outcome_bind, outcome_bind]
  generalize outcome m c = x at h ⊢
  generalize outcome m c' = x' at h ⊢
  obtain ⟨r, c₁⟩ := x
  obtain ⟨r', c₁'⟩ := x'
  obtain ⟨rfl, hs₁, he⟩ : r = r' ∧ c₁.scopes = c₁'.scopes ∧ c₁.escape = c.escape := h
  cases r with
  | error e => exact ⟨rfl, hs₁, he⟩
  | ok a =>
    obtain ⟨hr, hs₂, he₂⟩ := hf a c₁ c₁' hs₁
    exact ⟨hr, hs₂, he₂.trans he⟩

theorem of_steps {p : Parts (Run Value)} {r : Reach} {m : Run α} (h : p.Steps r m)
    (hr : r ≠ .steering) (hv : ∀ e ∈ p.values, Reads e.2.meaning) : Assigns m := by
  induction h with
  | pure a => exact (Reads.pure a).assigns
  | fail h => exact fun c c' hs => ⟨rfl, hs, rfl⟩
  | bind _ _ hm hf => exact hm.bind hf
  | get name =>
    refine fun c c' hs => ⟨?_, hs, rfl⟩
    rw [outcome_get, outcome_get, ← Context.get?_scopes, hs, Context.get?_scopes]
  | value hmem => exact (hv _ hmem).assigns
  | set name v _ =>
    refine fun c c' hs => ⟨rfl, ?_, Context.escape_set c name v⟩
    rw [outcome_set, outcome_set, Context.scopes_set, hs, Context.scopes_set]
  | statement h | raise _ h | takeEscape h | inBranch h | inLoop h | iterate _ _ h =>
    exact absurd h hr

end Assigns
end Run
end Blockwork
