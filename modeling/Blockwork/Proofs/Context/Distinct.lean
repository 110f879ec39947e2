import Blockwork.Proofs.Context.Kept
import Blockwork.Proofs.Entries

/-! The scopes of a run bind each name once: that names stay distinct holds across all its steps. -/

namespace Blockwork

namespace Context

variable {V : Type}

structure Distinct (c : Context V) : Prop where
  root : c.root.bindings.names.Nodup
  inner : ∀ scope ∈ c.inner, scope.bindings.names.Nodup

namespace Distinct

variable {c : Context V}

theorem ofBindings (bindings : List (String × V)) :
    (Context.ofBindings bindings).Distinct :=
  ⟨Entries.nodup_names_ofList bindings, List.forall_mem_nil _⟩

theorem push (h : c.Distinct) : c.push.Distinct :=
  ⟨h.root, List.forall_mem_cons.2 ⟨.nil, h.inner⟩⟩

theorem pop (h : c.Distinct) : c.pop.Distinct :=
  ⟨h.root, fun scope hscope => h.inner scope (List.mem_of_mem_tail hscope)⟩

theorem modifyCurrent (h : c.Distinct) {f : Scope V → Scope V}
    (hf : ∀ scope, scope.bindings.names.Nodup → (f scope).bindings.names.Nodup) :
    (c.modifyCurrent f).Distinct := by
  obtain ⟨_ | ⟨scope, rest⟩, root⟩ := c
  · exact ⟨hf root h.root, h.inner⟩
  · obtain ⟨hscope, hrest⟩ := List.forall_mem_cons.1 h.inner
    exact ⟨h.root, List.forall_mem_cons.2 ⟨hf scope hscope, hrest⟩⟩

theorem setEscape (h : c.Distinct) (e : Escape) : (c.setEscape e).Distinct :=
  h.modifyCurrent fun _ hscope => hscope

theorem setCurrent (h : c.Distinct) (name : String) (v : V) : (c.setCurrent name v).Distinct :=
  h.modifyCurrent fun _ hscope => Entries.nodup_names_put hscope name v

theorem declare (h : c.Distinct) (name : String) (v : V) : (c.declare name v).Distinct :=
  ⟨Entries.nodup_names_put h.root name v, h.inner⟩

theorem set (h : c.Distinct) (name : String) (v : V) : (c.set name v).Distinct := by
  unfold Context.set
  split
  · exact h.setCurrent name v
  · split
    · exact h.declare name v
    · exact h.setCurrent name v

theorem closeBranch (h : c.Distinct) : c.closeBranch.Distinct := by
  unfold Context.closeBranch
  split
  · exact h.pop
  · exact h.pop.setEscape _

theorem isKept : IsKept fun c c' : Context V => c.Distinct → c'.Distinct where
  refl _ h := h
  trans h h' hc := h' (h hc)
  set _ name v h := h.set name v
  setEscape _ e h := h.setEscape e
  closeBranch hbody h := (hbody h.push).closeBranch
  closeLoop hbody h := (hbody h.push).pop

end Distinct
end Context

open Context

theorem nodup_names_of_run {w : Workspace Kind} {limit : Nat} {globals : List (String × Value)}
    {execution : Workspace.Execution} (h : w.run limit globals = .ok execution) :
    execution.bindings.names.Nodup := by
  have hkept := keeps_evaluateFrom Distinct.isKept limit w.chains .null (.ofBindings globals)
    (.ofBindings globals)
  have hrun : w.run limit globals =
      match outcome (w.evaluate limit) (.ofBindings globals) with
      | (.ok value, c) => .ok ⟨value, c.root.bindings⟩
      | (.error halt, _) => .error halt := rfl
  rw [hrun] at h
  unfold Workspace.evaluate at h
  generalize outcome (Workspace.evaluateFrom limit .null w.chains) _ = x at hkept h
  obtain ⟨halt | value, c⟩ := x
  · cases h
  · cases h
    exact hkept.root

end Blockwork
