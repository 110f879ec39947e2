import Blockwork.Proofs.Context.Kept

/-! What a run leaves as it was. Each step keeps the frame of the context, whatever its result; so
every chain of standard kinds does. -/

namespace Blockwork

theorem Entries.names_prefix_put {α : Type} (es : Entries α) (name : String) (v : α) :
    es.names <+: (es.put name v).names := by
  rw [Entries.names_put]
  split
  · exact List.prefix_rfl
  · exact List.prefix_append ..

theorem Entries.names_put_of_contains {α : Type} {es : Entries α} {name : String} (v : α)
    (h : es.contains name = true) : (es.put name v).names = es.names := by
  rw [Entries.names_put, if_pos (Entries.contains_iff.1 h)]

namespace Context

variable {V : Type}

/-- The second context has the scopes of the first one. The current scope may differ in its values
and its escape and have further names behind its own; above it only values of the root differ. -/
structure Frame (c c' : Context V) : Prop where
  depth : c'.depth = c.depth
  between : c'.inner.tail = c.inner.tail
  rootNames : 1 ≤ c.depth → c'.root.bindings.names = c.root.bindings.names
  rootEscape : 1 ≤ c.depth → c'.root.escape = c.root.escape
  currentNames : c.current.bindings.names <+: c'.current.bindings.names

namespace Frame

variable {c c₁ c₂ : Context V}

protected theorem refl (c : Context V) : c.Frame c :=
  ⟨rfl, rfl, fun _ => rfl, fun _ => rfl, List.prefix_rfl⟩

protected theorem trans (h₁ : c.Frame c₁) (h₂ : c₁.Frame c₂) : c.Frame c₂ where
  depth := h₂.depth.trans h₁.depth
  between := h₂.between.trans h₁.between
  rootNames hd := (h₂.rootNames (h₁.depth ▸ hd)).trans (h₁.rootNames hd)
  rootEscape hd := (h₂.rootEscape (h₁.depth ▸ hd)).trans (h₁.rootEscape hd)
  currentNames := h₁.currentNames.trans h₂.currentNames

theorem modifyCurrent (c : Context V) {f : Scope V → Scope V}
    (hf : c.current.bindings.names <+: (f c.current).bindings.names) :
    c.Frame (c.modifyCurrent f) := by
  obtain ⟨_ | ⟨scope, rest⟩, root⟩ := c
  · exact ⟨rfl, rfl, fun hd => absurd hd (by simp [Context.depth]),
      fun hd => absurd hd (by simp [Context.depth]), hf⟩
  · exact ⟨rfl, rfl, fun _ => rfl, fun _ => rfl, hf⟩

theorem setEscape (c : Context V) (e : Escape) : c.Frame (c.setEscape e) :=
  modifyCurrent c List.prefix_rfl

theorem setCurrent (c : Context V) (name : String) (v : V) : c.Frame (c.setCurrent name v) :=
  modifyCurrent c (Entries.names_prefix_put ..)

theorem declare (c : Context V) {name : String} (v : V)
    (h : c.root.bindings.contains name = true) : c.Frame (c.declare name v) := by
  have hnames : (c.declare name v).root.bindings.names = c.root.bindings.names :=
    Entries.names_put_of_contains v h
  refine ⟨rfl, rfl, fun _ => hnames, fun _ => rfl, ?_⟩
  obtain ⟨_ | ⟨scope, rest⟩, root⟩ := c
  · exact hnames ▸ List.prefix_rfl
  · exact List.prefix_rfl

theorem set (c : Context V) (name : String) (v : V) : c.Frame (c.set name v) := by
  unfold Context.set
  split
  · exact setCurrent c name v
  · split
    · exact declare c v ‹_›
    · exact setCurrent c name v

/-- Closing a scope gives back the context in which it was opened, but for values of the root. -/
theorem pop (h : c.push.Frame c₁) : c.Frame c₁.pop := by
  have hinner : c₁.pop.inner = c.inner := h.between
  have hnames : c₁.root.bindings.names = c.root.bindings.names := h.rootNames (by simp [push, Context.depth])
  have hescape : c₁.root.escape = c.root.escape := h.rootEscape (by simp [push, Context.depth])
  refine ⟨?_, ?_, fun _ => hnames, fun _ => hescape, ?_⟩
  · rw [Context.depth, hinner, Context.depth]
  · rw [hinner]
  · rw [Context.current, Context.current, hinner]
    cases c.inner with
    | nil => exact hnames ▸ List.prefix_rfl
    | cons scope rest => exact List.prefix_rfl

theorem closeLoop (h : c.push.Frame c₁) : c.Frame c₁.closeLoop := pop h

theorem closeBranch (h : c.push.Frame c₁) : c.Frame c₁.closeBranch := by
  unfold Context.closeBranch
  split
  · exact pop h
  · exact (pop h).trans (setEscape _ _)

theorem isKept : IsKept fun c c' : Context V => c.Frame c' where
  refl := .refl
  trans := .trans
  set := .set
  setEscape := .setEscape
  closeBranch := .closeBranch
  closeLoop := .closeLoop

end Frame
end Context

open Run

def Run.Framed {α : Type} (m : Run α) : Prop := ∀ c : Context Value, c.Frame (outcome m c).2

namespace Run.Framed

variable {α : Type}

theorem of_steps {p : Parts (Run Value)} {r : Reach} {m : Run α} (h : p.Steps r m)
    (hv : ∀ e ∈ p.values, Framed e.2.meaning) (hs : ∀ e ∈ p.statements, Framed e.2.meaning) :
    Framed m :=
  Keeps.of_steps Context.Frame.isKept h hv hs

end Run.Framed

theorem framed_evaluateChain (limit : Nat) (chain : List (Block Kind)) :
    Run.Framed (evaluateChain limit chain) ∧ Run.Framed (evaluateRest limit chain) :=
  keeps_evaluateChain Context.Frame.isKept limit chain

theorem Block.framed_steps (limit : Nat) (b : Block Kind) {r : Reach} {α : Type} {m : Run α}
    (h : (b.runParts limit).Steps r m) : m.Framed := by
  refine .of_steps h ?_ ?_
  · rw [Block.values_runParts, List.forall_mem_map]
    exact fun s _ => (framed_evaluateChain limit s.chain).1
  · rw [Block.statements_runParts, List.forall_mem_map]
    exact fun s _ => (framed_evaluateChain limit s.chain).1

/-- Whatever a chain does and however it ends, it keeps the frame of the context it starts in. -/
theorem evaluateChain_keeps_frame (limit : Nat) (chain : List (Block Kind)) (c : Context Value) :
    c.Frame (outcome (evaluateChain limit chain) c).2 :=
  (framed_evaluateChain limit chain).1 c

end Blockwork
