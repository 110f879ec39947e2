import Blockwork.Proofs.Interpreter.Unmentioned

/-! Variables that a chain may read and does not assign. No step of a block assigns another variable
than that of its field, so a chain leaves alone what no block assigns that changes anything. -/

namespace Blockwork

open Run

variable {α β : Type} {name : String}

structure Context.SameBinding {V : Type} (name : String) (c c' : Context V) : Prop where
  current : c'.current.bindings.get? name = c.current.bindings.get? name
  root : c'.root.bindings.get? name = c.root.bindings.get? name

namespace Context.SameBinding

variable {V : Type} {c c₁ c₂ : Context V}

protected theorem refl (c : Context V) : c.SameBinding name c := ⟨rfl, rfl⟩

protected theorem trans (h₁ : c.SameBinding name c₁) (h₂ : c₁.SameBinding name c₂) :
    c.SameBinding name c₂ :=
  ⟨h₂.current.trans h₁.current, h₂.root.trans h₁.root⟩

theorem isPreorder : IsPreorder (Context V) (Context.SameBinding name) where
  refl := .refl
  trans _ _ _ := .trans

theorem get? (h : c.SameBinding name c₁) : c₁.get? name = c.get? name := by
  rw [Context.get?, h.current, h.root, Context.get?]

theorem modifyCurrent (c : Context V) {f : Scope V → Scope V}
    (hf : ∀ scope : Scope V, (f scope).bindings.get? name = scope.bindings.get? name) :
    c.SameBinding name (c.modifyCurrent f) := by
  obtain ⟨_ | ⟨scope, rest⟩, root⟩ := c
  · exact ⟨hf root, hf root⟩
  · exact ⟨hf scope, rfl⟩

theorem setEscape (c : Context V) (e : Escape) : c.SameBinding name (c.setEscape e) :=
  modifyCurrent c fun _ => rfl

theorem set (c : Context V) {other : String} (v : V) (h : name ≠ other) :
    c.SameBinding name (c.set other v) := by
  have hput : ∀ es : Entries V, (es.put other v).get? name = es.get? name :=
    fun es => Entries.get?_put_of_ne es v h
  unfold Context.set
  split
  · exact modifyCurrent c fun _ => hput _
  · split
    · obtain ⟨_ | ⟨scope, rest⟩, root⟩ := c
      · exact ⟨hput _, hput _⟩
      · exact ⟨rfl, hput _⟩
    · exact modifyCurrent c fun _ => hput _

/-- Outside of a scope that is closed only the root counts, or what nothing in it could reach. -/
theorem pop (h : c.push.SameBinding name c₁) (hframe : c.push.Frame c₁) :
    c.SameBinding name c₁.pop := by
  have hinner : c₁.pop.inner = c.inner := hframe.between
  have hroot : c₁.pop.root.bindings.get? name = c.root.bindings.get? name := h.root
  refine ⟨?_, hroot⟩
  rw [Context.current, hinner, Context.current]
  cases c.inner with
  | nil => exact hroot
  | cons scope rest => rfl

theorem closeBranch (h : c.push.SameBinding name c₁) (hframe : c.push.Frame c₁) :
    c.SameBinding name c₁.closeBranch := by
  unfold Context.closeBranch
  split
  · exact h.pop hframe
  · exact (h.pop hframe).trans (setEscape ..)

end Context.SameBinding

def Run.Spares (name : String) (m : Run α) : Prop :=
  ∀ c : Context Value, c.SameBinding name (outcome m c).2

namespace Run.Spares

theorem pure (a : α) : Spares name (Pure.pure a : Run α) := fun c => .refl c

theorem bind {m : Run α} {f : α → Run β} (hm : Spares name m) (hf : ∀ a, Spares name (f a)) :
    Spares name (m >>= f) :=
  Keeps.bind Context.SameBinding.isPreorder hm hf

theorem of_steps {p : Parts (Run Value)} {r : Reach} {m : Run α} (h : p.Steps r m)
    (hframed : ∀ {α : Type} {m : Run α}, p.Steps r m → m.Framed)
    (hname : r ≠ .reading → p.variable ≠ .ok name)
    (hv : ∀ e ∈ p.values, Spares name e.2.meaning)
    (hs : ∀ e ∈ p.statements, Spares name e.2.meaning) : Spares name m := by
  induction h with
  | pure a => exact .pure a
  | fail h => exact fun c => .refl c
  | bind _ _ hm hf => exact hm.bind hf
  | get name => exact fun c => .refl c
  | value hmem => exact hv _ hmem
  | set other v hr hother =>
    exact fun c => .set c v fun h => hname hr (h ▸ hother)
  | statement _ hmem => exact hs _ hmem
  | raise e _ => exact fun c => .setEscape c e
  | takeEscape _ => exact fun c => .setEscape c .none
  | inBranch _ hm ih => exact fun c => (ih c.push).closeBranch (hframed hm c.push)
  | inLoop _ hm ih => exact fun c => (ih c.push).pop (hframed hm c.push)
  | iterate limit s _ _ ih => exact Keeps.iterate Context.SameBinding.isPreorder ih limit s

end Run.Spares

def Block.LeavesAlone (name : String) (b : Block Kind) : Prop :=
  b.kind.reach = .reading ∨ b.fields.get? "VAR" ≠ some name

instance (name : String) : DecidablePred (Block.LeavesAlone name) := fun b =>
  inferInstanceAs (Decidable (b.kind.reach = .reading ∨ b.fields.get? "VAR" ≠ some name))

/-- A chain of blocks that all leave a variable alone has no effect on it. -/
theorem spares_evaluateChain (limit : Nat) {chain : List (Block Kind)}
    (h : Block.AllOf (Block.LeavesAlone name) chain) :
    (evaluateChain limit chain).Spares name ∧ (evaluateRest limit chain).Spares name := by
  refine evaluateChain_of_blocks (C := Run.Spares name) .pure .bind
    (Keeps.poll Context.SameBinding.isPreorder) (fun b hb hv hs => ?_) h
  refine .of_steps (b.kind.steps limit (b.runParts limit)) (b.framed_steps limit)
    (fun hr hname => ?_) hv hs
  exact hb.elim hr fun hother => hother (Parts.field_eq_ok.1 hname)

end Blockwork
