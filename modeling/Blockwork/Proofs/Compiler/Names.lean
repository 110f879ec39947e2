import Blockwork.Proofs.Compiler.Declarations

/-! Where the names of a program come from. What a chain becomes depends on its context only through
the depth, so it may be compiled again beside nothing: then what it assigns is what it declares, and
that is what its blocks bring. -/

namespace Blockwork

open Target

variable {α β : Type}

/-! ### Names that a chain spares -/

theorem Context.bindings_closeBranch {V : Type} (c : Context V) :
    c.closeBranch.root.bindings = c.root.bindings := by
  unfold Context.closeBranch
  split
  · rfl
  · generalize c.escape = e
    obtain ⟨_ | ⟨scope, _ | ⟨next, rest⟩⟩, root⟩ := c <;> rfl

def Spares (name : String) (floor : Nat) (d : Compilation α) : Prop :=
  ∀ κ a κ', floor ≤ κ.depth → outcome d κ = (.ok a, κ') →
    κ'.depth = κ.depth ∧ (name ∉ κ.root.bindings.names → name ∉ κ'.root.bindings.names)

namespace Spares

variable {name : String} {floor : Nat}

theorem pure (a : α) : Spares name floor (Pure.pure a) := by
  intro κ b κ' _ hb
  obtain ⟨-, rfl⟩ := pure_eq_ok.1 hb
  exact ⟨rfl, id⟩

theorem fail (e : EngineError) : Spares name floor (throw e : Compilation α) :=
  fun _ _ _ _ h => (throw_eq_ok.1 h).elim

theorem bind {d : Compilation α} {f : α → Compilation β} (h : Spares name floor d)
    (hf : ∀ a, Spares name floor (f a)) : Spares name floor (d >>= f) := by
  intro κ b κ' hκ hb
  obtain ⟨a, κ₁, ha, hb⟩ := bind_eq_ok.1 hb
  obtain ⟨hdepth, hname⟩ := h κ a κ₁ hκ ha
  obtain ⟨hdepth', hname'⟩ := hf a κ₁ b κ' (hdepth ▸ hκ) hb
  exact ⟨hdepth'.trans hdepth, hname' ∘ hname⟩

theorem declare {other : String} (h : name ≠ other) (e : Expr) :
    Spares name floor (Compilation.declare other e) := by
  intro κ a κ' _ ha
  obtain ⟨-, rfl⟩ := Prod.mk.inj ha
  refine ⟨rfl, fun hname => ?_⟩
  show name ∉ (κ.declare other e).root.bindings.names
  rw [Context.declare, Entries.names_put]
  split
  · exact hname
  · simpa [h] using hname

theorem inBranch {d : Compilation α} (h : Spares name floor d) :
    Spares name floor (Traversal.inBranch d) := by
  intro κ a κ' hκ ha
  obtain ⟨κ₁, hd, rfl⟩ := Traversal.inBranch_eq_ok ha
  obtain ⟨hdepth, hname⟩ := h κ.push a κ₁ (Nat.le_succ_of_le hκ) hd
  refine ⟨?_, ?_⟩
  · rw [Context.depth_closeBranch, hdepth, Context.depth_push, Nat.add_sub_cancel]
  · rw [Context.bindings_closeBranch]
    exact hname

theorem inLoop {d : Compilation α} (h : Spares name floor d) :
    Spares name floor (Traversal.inLoop d) := by
  intro κ a κ' hκ ha
  obtain ⟨κ₁, hd, rfl⟩ := Traversal.inLoop_eq_ok ha
  obtain ⟨hdepth, hname⟩ := h κ.push a κ₁ (Nat.le_succ_of_le hκ) hd
  refine ⟨?_, hname⟩
  rw [Context.closeLoop, Context.depth_pop, hdepth, Context.depth_push, Nat.add_sub_cancel]

end Spares

theorem Parts.CodeSteps.spares {p : Parts SlotCode} {k : Kind} {name : String} {floor : Nat}
    {d : Compilation α} (hname : ∀ depth, floor ≤ depth → name ∉ k.brings p.fields depth)
    (hv : ∀ e ∈ p.values, Spares name floor e.2.meaning.expression)
    (hs : ∀ e ∈ p.statements, Spares name floor e.2.meaning.statements)
    (h : p.CodeSteps k floor d) : Spares name floor d := by
  induction h with
  | pure a => exact .pure a
  | fail e => exact .fail e
  | bind _ _ ih ih' => exact ih.bind ih'
  | expression hplug => exact hv _ hplug
  | statements hplug => exact hs _ hplug
  | declare e hdepth hbrings =>
    refine .declare ?_ e
    rintro rfl
    exact hname _ hdepth hbrings
  | atDepth _ _ ih => exact fun κ a κ' hκ ha => ih κ hκ κ a κ' hκ ha
  | inBranch _ ih => exact ih.inBranch
  | inLoop _ ih => exact ih.inLoop

def Block.SparesName (name : String) (floor : Nat) (b : Block Kind) : Prop :=
  ∀ depth, floor ≤ depth → name ∉ b.brings depth

theorem spares_compileChain {name : String} {floor : Nat} (chain : List (Block Kind))
    (h : Block.AllOf (Block.SparesName name floor) chain) :
    Spares name floor (compileExpression chain) ∧ Spares name floor (compileChain chain) := by
  revert h
  refine Block.chain_induction
    (P := fun b => b.All (Block.SparesName name floor) → Spares name floor b.compile)
    (Q := fun chain => Block.AllOf (Block.SparesName name floor) chain →
      Spares name floor (compileExpression chain) ∧ Spares name floor (compileChain chain))
    ?_ ?_ ?_ chain
  · intro b hvalues hbodies h
    obtain ⟨hb, hbvalues, hbbodies⟩ := Block.all_iff.1 h
    rw [Block.compile_eq]
    refine Parts.CodeSteps.spares ?_ ?_ ?_ (Kind.codeSteps b.codeParts b.kind floor)
    · exact hb
    · rw [Block.values_codeParts, List.forall_mem_map]
      exact fun s hs => (hvalues s hs (hbvalues s hs)).1
    · rw [Block.statements_codeParts, List.forall_mem_map]
      exact fun s hs => (hbodies s hs (hbbodies s hs)).2
  · exact fun _ => ⟨.pure _, .pure _⟩
  · intro b rest hb hrest h
    have hcode := hb h.1
    refine ⟨hcode.bind fun code => ?_, hcode.bind fun code => (hrest h.2).2.bind fun _ => .pure _⟩
    cases code with
    | expression e => exact .pure e
    | statements body => exact .fail _

theorem not_mem_bodyAssigned {name : String} {floor : Nat} {chain : List (Block Kind)}
    (h : Block.AllOf (Block.SparesName name floor) chain) {κ κ' : Context Expr} {body : List Stmt}
    (hκ : floor ≤ κ.depth) (hbody : outcome (compileChain chain) κ = (.ok body, κ')) :
    name ∉ bodyAssigned body := by
  let κ₀ : Context Expr := { inner := κ.inner }
  have hsame : (outcome (compileChain chain) κ₀).1 = (outcome (compileChain chain) κ).1 :=
    (writes_compileChain chain).2.result_eq rfl
  have hbody₀ : outcome (compileChain chain) κ₀ = (.ok body, (outcome (compileChain chain) κ₀).2) := by
    refine Prod.ext ?_ rfl
    rw [hsame, hbody]
  have hbinds := (declares_compileChain chain).2 [] κ₀ body _ hbody₀ ⟨.nil, fun _ => .rfl⟩
  have hspares := (spares_compileChain chain h).2 κ₀ body _ hκ hbody₀
  exact fun hname => hspares.2 List.not_mem_nil ((hbinds.mem_iff name).2 hname)

end Blockwork
