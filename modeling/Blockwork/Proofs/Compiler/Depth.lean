import Blockwork.Proofs.Compiler.Writes

/-! Compilation closes every scope that it opens. The depth that names the counters of loops is so
known before the blocks around a loop are compiled. -/

namespace Blockwork

open Target

variable {α : Type}

namespace Context

variable {V : Type} (c : Context V)

theorem depth_push : c.push.depth = c.depth + 1 := rfl

theorem depth_pop : c.pop.depth = c.depth - 1 := List.length_tail

theorem depth_setEscape (e : Escape) : (c.setEscape e).depth = c.depth := by
  obtain ⟨_ | ⟨scope, rest⟩, root⟩ := c <;> rfl

theorem depth_closeBranch : c.closeBranch.depth = c.depth - 1 := by
  unfold closeBranch
  split
  · exact c.depth_pop
  · rw [depth_setEscape]
    exact c.depth_pop

end Context

def Level (d : Compilation α) : Prop := ∀ κ, (outcome d κ).2.depth = κ.depth

theorem Writes.level {d : Compilation α} (h : Writes d) : Level d := by
  intro κ
  obtain ⟨result, new, hd⟩ := h κ.depth
  rw [hd κ rfl]
  rfl

theorem Level.declare (name : String) (e : Expr) : Level (Compilation.declare name e) := fun _ => rfl

/-! ### Blocks -/

namespace Block

variable (b : Block Kind)

theorem level_steps {d : Compilation α} (h : b.codeParts.CodeSteps b.kind 0 d) : Level d :=
  (h.writes b.writes_values b.writes_statements).level

theorem level_compile : Level b.compile := by
  rw [compile_eq]
  exact b.level_steps (b.kind.codeSteps b.codeParts 0)

end Block

theorem Level.depth_eq {d : Compilation α} (h : Level d) {κ κ₁ : Context Expr} {a : α}
    (hd : outcome d κ = (.ok a, κ₁)) : κ₁.depth = κ.depth := by
  rw [← h κ, hd]

end Blockwork
