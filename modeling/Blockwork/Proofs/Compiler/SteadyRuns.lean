import Blockwork.Proofs.Compiler.Parity
import Blockwork.Proofs.Compiler.Steady

/-! Runs and programs of steady blocks. Each block carries the agreement of a context with a store on,
and with it what is known of the variables. -/

namespace Blockwork

open Target

variable {env : Entries Presence} {limit : Nat} {b : Block Kind} {c c₁ : Context Value} {σ : Store}
  {κ κ₁ : Context Expr} {code : Code}

/-! ### Assignments -/

section

variable (hslots : ∀ s ∈ b.values, Mirrors c (Stands σ (chainPresence env s.chain))
  (evaluateChain limit s.chain) (compileExpression s.chain)) (hσ : Fitted env c σ)

include hslots hσ

theorem set_fitted (hrun : outcome (b.runParts limit).executeSet c = (.ok (), c₁)) {e : Expr}
    (hcode : outcome b.codeParts.compileSet κ = (.ok e, κ₁)) :
    ∃ w σ', e.eval σ = some (w, σ') ∧
      Fitted (Kind.set.presencesAfter env (b.presenceParts env)) c₁ σ' := by
  obtain ⟨name, hfield, hrun, hcode⟩ := setting_eq_ok hrun hcode
  obtain ⟨v, c₂, hv, hset⟩ := bind_eq_ok.1 hrun
  obtain ⟨value, κ₂, hvalue, hassign⟩ := bind_eq_ok.1 hcode
  obtain rfl := Compilation.assign_eq_ok hassign
  obtain ⟨rfl, s, -, -, hslot, w, hw, hfits⟩ :=
    mirrors_standing hslots "VALUE" v c₂ κ value κ₂ hv hvalue
  obtain rfl : c₂.set name v = c₁ := congrArg Prod.snd hset
  refine ⟨w, σ.put name w, eval_assign hw, ?_⟩
  have hfield : (b.presenceParts env).variable = .ok name := hfield
  rw [Kind.presencesAfter, hfield, Block.value_presenceParts hslot]
  exact hσ.set hfits

omit hslots in
theorem eval_appended (name : String) :
    (Expr.binary .coalesce (.variable name) (.text "")).toText.eval σ =
      some (.text ((c.get? name).getD .null).appended, σ) := by
  have hfits := (hσ.fits name).runtime
  rw [← hfits]
  generalize hw : (σ.get? name).getD .undefined = w
  have hvariable : (Expr.variable name).eval σ = some (w, σ) := hw ▸ rfl
  have hdisplay := Target.Value.display_runtime w
  cases w with
  | undefined | null =>
    have hempty : (Expr.text "").eval σ = some (.text "", σ) := rfl
    exact eval_toText (eval_binary hvariable rfl hempty)
  | _ =>
    refine (eval_toText (eval_decided hvariable rfl)).trans ?_
    exact congrArg (fun t => some (Target.Value.text t, σ)) (hdisplay nofun).symm

theorem append_fitted (hshown : ∀ s ∈ b.values, chainPresence env s.chain ≠ .unknown)
    (hrun : outcome (b.runParts limit).executeAppend c = (.ok (), c₁)) {e : Expr}
    (hcode : outcome b.codeParts.compileAppend κ = (.ok e, κ₁)) :
    ∃ w σ', e.eval σ = some (w, σ') ∧
      Fitted (Kind.append.presencesAfter env (b.presenceParts env)) c₁ σ' := by
  obtain ⟨name, hfield, hrun, hcode⟩ := setting_eq_ok hrun hcode
  obtain ⟨t, c₂, ht, hrun⟩ := bind_eq_ok.1 hrun
  obtain ⟨v, c₃, hget, hset⟩ := bind_eq_ok.1 hrun
  obtain ⟨hv, rfl⟩ := Prod.mk.inj hget
  obtain rfl := Except.ok.inj hv
  obtain ⟨suffix, κ₂, hsuffix, hassign⟩ := bind_eq_ok.1 hcode
  obtain rfl := Compilation.assign_eq_ok hassign
  obtain ⟨rfl, t', hsuffix, -, heq⟩ := mirrors_display hslots "TEXT" t c₂ κ suffix κ₂ ht hsuffix
  obtain rfl := heq hshown
  have hset : c₂.set name (.text (((c₂.get? name).getD .null).appended ++ t')) = c₁ := by
    refine Eq.trans ?_ (congrArg Prod.snd hset)
    generalize (c₂.get? name).getD .null = v
    cases v <;> rfl
  refine ⟨_, _, eval_assign (eval_binary (eval_appended hσ name) rfl hsuffix), ?_⟩
  have hfield : (b.presenceParts env).variable = .ok name := hfield
  rw [Kind.presencesAfter, hfield, ← hset]
  exact hσ.set ⟨rfl, rfl⟩

end

/-! ### Blocks -/

theorem assignment_fitted {m : Run Unit} {d : Compilation Expr} {env' : Entries Presence} {v : Value}
    (h : ∀ e, outcome m c = (.ok (), c₁) → outcome d κ = (.ok e, κ₁) →
      ∃ w σ', e.eval σ = some (w, σ') ∧ Fitted env' c₁ σ')
    (hrun : outcome (do m; return Value.null) c = (.ok v, c₁))
    (hcode : outcome (Code.expression <$> d) κ = (.ok code, κ₁)) :
    ∃ σ', execBody limit code.body σ = some (.none, σ') ∧ Fitted env' c₁ σ' := by
  obtain ⟨_, c₂, hassign, hnull⟩ := bind_eq_ok.1 hrun
  obtain ⟨-, rfl⟩ := pure_eq_ok.1 hnull
  obtain ⟨e, he, rfl⟩ := map_eq_ok.1 hcode
  obtain ⟨w, σ', heval, hfitted⟩ := h e hassign he
  exact ⟨σ', execBody_singleton (exec_expr heval), hfitted⟩

theorem Kind.isBasic_cases {k : Kind} (h : k.isBasic = true) :
    k.isValue = true ∨ k = .set ∨ k = .append := by
  cases k with
  | set => exact .inr (.inl rfl)
  | append => exact .inr (.inr rfl)
  | boolean | null | compare | number | text | join | textLength | textIsEmpty | get | createList =>
    exact .inl rfl
  | _ => exact absurd h Bool.false_ne_true

theorem Kind.presencesAfter_of_isValue {k : Kind} (h : k.isValue = true) (p : Parts Presence) :
    k.presencesAfter env p = env := by
  cases k with
  | set | append => exact absurd h Bool.false_ne_true
  | _ => rfl

/-- What one block does: whatever is known before it and after it, the store follows the context. -/
theorem block_fitted (hsteady : b.All (Block.Steady env)) (hσ : Fitted env c σ) {v : Value}
    (hrun : outcome (b.evaluate limit) c = (.ok v, c₁)) (hcode : outcome b.compile κ = (.ok code, κ₁)) :
    ∃ σ', execBody limit code.body σ = some (.none, σ') ∧
      Fitted (b.kind.presencesAfter env (b.presenceParts env)) c₁ σ' := by
  obtain ⟨hb, hvalues, -⟩ := Block.all_iff.1 hsteady
  have hslots : ∀ s ∈ b.values, Mirrors c (Stands σ (chainPresence env s.chain))
      (evaluateChain limit s.chain) (compileExpression s.chain) :=
    fun s hs => mirrors_steadyChain hσ (hvalues s hs) (hb.values s hs)
  rw [Block.evaluate_eq] at hrun
  rw [Block.compile_eq] at hcode
  have hshown := hb.shown
  obtain hvalue | hkind | hkind := Kind.isBasic_cases hb.basic
  · obtain ⟨rfl, hstands⟩ := mirrors_steadyKind hslots hb hvalue hσ v c₁ κ code κ₁ hrun hcode
    rw [Kind.presencesAfter_of_isValue hvalue]
    cases code with
    | statements body => exact absurd hstands id
    | expression e =>
      obtain ⟨w, hw, -⟩ := hstands
      exact ⟨σ, execBody_singleton (exec_expr hw), hσ⟩
  · rw [hkind] at hrun hcode ⊢
    exact assignment_fitted (fun _ hm hd => set_fitted hslots hσ hm hd) hrun hcode
  · rw [hkind] at hrun hcode hshown ⊢
    exact assignment_fitted (fun _ hm hd => append_fitted hslots hσ (hshown rfl) hm hd) hrun hcode

/-! ### Chains -/

def presencesThrough (env : Entries Presence) (chain : List (Block Kind)) : Entries Presence :=
  chain.foldl (fun env b => b.kind.presencesAfter env (b.presenceParts env)) env

theorem steadily_append {chain rest : List (Block Kind)} : Steadily env (chain ++ rest) ↔
    Steadily env chain ∧ Steadily (presencesThrough env chain) rest := by
  induction chain generalizing env with
  | nil => exact ⟨fun h => ⟨trivial, h⟩, fun h => h.2⟩
  | cons b chain ih =>
    rw [List.cons_append, Steadily, Steadily, ih, and_assoc]
    rfl

theorem rest_of_chain {chain : List (Block Kind)} (hc : c.escape = .none) {v : Value}
    (h : outcome (evaluateChain limit chain) c = (.ok v, c₁)) :
    outcome (evaluateRest limit chain) c = (.ok (), c₁) := by
  cases chain with
  | nil => exact congrArg (Prod.mk (Except.ok ())) (pure_eq_ok.1 h).2
  | cons b rest =>
    obtain ⟨u, c₂, hb, h⟩ := bind_eq_ok.1 h
    obtain ⟨_, c₃, hrest, h⟩ := bind_eq_ok.1 h
    obtain ⟨-, rfl⟩ := pure_eq_ok.1 h
    refine bind_eq_ok.2 ⟨c, c, rfl, ?_⟩
    rw [if_pos hc]
    exact bind_eq_ok.2 ⟨u, c₂, hb, hrest⟩

theorem chain_fitted {chain : List (Block Kind)} (hsteady : Steadily env chain)
    (hσ : Fitted env c σ) (hrun : outcome (evaluateRest limit chain) c = (.ok (), c₁))
    {body : List Stmt} (hcode : outcome (compileChain chain) κ = (.ok body, κ₁)) :
    ∃ σ', execBody limit body σ = some (.none, σ') ∧ Fitted (presencesThrough env chain) c₁ σ' := by
  induction chain generalizing env c σ κ body with
  | nil =>
    obtain ⟨-, rfl⟩ := pure_eq_ok.1 hrun
    obtain ⟨rfl, -⟩ := pure_eq_ok.1 hcode
    exact ⟨σ, rfl, hσ⟩
  | cons b rest ih =>
    obtain ⟨c', c₂, hget, hrun⟩ := bind_eq_ok.1 hrun
    obtain ⟨hc, rfl⟩ := Prod.mk.inj hget
    obtain rfl := Except.ok.inj hc
    rw [if_pos hσ.quiet] at hrun
    obtain ⟨v, c₃, hb, hrest⟩ := bind_eq_ok.1 hrun
    obtain ⟨code, κ₂, hblock, hcode⟩ := bind_eq_ok.1 hcode
    obtain ⟨after, κ₃, hafter, hpure⟩ := bind_eq_ok.1 hcode
    obtain ⟨rfl, rfl⟩ := pure_eq_ok.1 hpure
    obtain ⟨σ₁, hexec, hσ₁⟩ := block_fitted hsteady.1 hσ hb hblock
    obtain ⟨σ₂, hexec₂, hσ₂⟩ := ih hsteady.2 hσ₁ hrest hafter
    refine ⟨σ₂, ?_, hσ₂⟩
    rw [execBody_append, hexec]
    exact hexec₂

theorem chains_fitted {chains : List (List (Block Kind))} (hsteady : Steadily env chains.flatten)
    (hσ : Fitted env c σ) {last v : Value}
    (hrun : outcome (Workspace.evaluateFrom limit last chains) c = (.ok v, c₁)) {body : List Stmt}
    (hcode : outcome (Workspace.compileChains chains) κ = (.ok body, κ₁)) :
    ∃ σ', execBody limit body σ = some (.none, σ') ∧
      Fitted (presencesThrough env chains.flatten) c₁ σ' := by
  induction chains generalizing env last c σ κ body with
  | nil =>
    obtain ⟨-, rfl⟩ := pure_eq_ok.1 hrun
    obtain ⟨rfl, -⟩ := pure_eq_ok.1 hcode
    exact ⟨σ, rfl, hσ⟩
  | cons chain rest ih =>
    rw [List.flatten_cons, steadily_append] at hsteady
    obtain ⟨w, c₂, hchain, hrun⟩ := bind_eq_ok.1 hrun
    obtain ⟨_, c₃, htake, hrun⟩ := bind_eq_ok.1 hrun
    obtain ⟨-, rfl⟩ := Prod.mk.inj htake
    obtain ⟨stmts, κ₂, hstmts, hcode⟩ := bind_eq_ok.1 hcode
    obtain ⟨_, κ₃, -, hcode⟩ := bind_eq_ok.1 hcode
    obtain ⟨after, κ₄, hafter, hpure⟩ := bind_eq_ok.1 hcode
    obtain ⟨rfl, rfl⟩ := pure_eq_ok.1 hpure
    obtain ⟨σ₁, hexec, hσ₁⟩ := chain_fitted hsteady.1 hσ (rest_of_chain hσ.quiet hchain) hstmts
    obtain ⟨σ₂, hexec₂, hσ₂⟩ := ih hsteady.2 hσ₁.setEscape hrun hafter
    refine ⟨σ₂, ?_, ?_⟩
    · rw [execBody_append, hexec]
      exact hexec₂
    · rw [List.flatten_cons, presencesThrough, List.foldl_append]
      exact hσ₂

/-! ### Programs -/

theorem Target.Program.get?_start (program : Program) (name : String) :
    (program.start.get? name).getD .undefined = .undefined := by
  unfold Target.Program.start
  induction program.declared with
  | nil => rfl
  | cons other rest ih =>
    rw [List.map_cons, Entries.get?, List.lookup_cons]
    split
    · rfl
    · exact ih

theorem fitted_start (program : Program) : Fitted [] {} program.start := by
  refine ⟨rfl, rfl, fun name => ?_⟩
  rw [program.get?_start]
  rfl

/-- Where a steady workspace runs without bindings of a host and compiles, its program ends too, and
then every variable of the run has in the store the same value, up to which null it is. -/
theorem run_agrees_without_host {w : Workspace Kind} (hsteady : Steadily [] w.chains.flatten)
    {e : Workspace.Execution} {program : Program} (hrun : w.run limit [] = .ok e)
    (hcompile : w.compile = .ok program) :
    ∃ σ, execBody limit program.body program.start = some (.none, σ) ∧
      ∀ name v, e.bindings.get? name = some v → ((σ.get? name).getD .undefined).runtime = v := by
  unfold Workspace.run at hrun
  split at hrun
  · rename_i v c hevaluate
    obtain rfl := Except.ok.inj hrun
    obtain ⟨κ, hbody, -⟩ := Workspace.compile_eq_ok hcompile
    obtain ⟨σ, hexec, hσ⟩ := chains_fitted hsteady (fitted_start _) hevaluate hbody
    refine ⟨σ, hexec, fun name v hv => ?_⟩
    have hget : c.get? name = some v := by
      obtain ⟨inner, root⟩ := c
      obtain rfl : inner = [] := hσ.inner
      exact (Context.get?_root root name).trans hv
    have hfits := (hσ.fits name).runtime
    rw [hget] at hfits
    exact hfits
  · exact absurd hrun (by simp)

def variableBlock (name id : String) : Block Kind :=
  ⟨.get, "variables_get", id, [("VAR", name)], [], [], [], []⟩

def assignBlock (name id : String) (value : List (Block Kind)) : Block Kind :=
  ⟨.set, "variables_set", id, [("VAR", name)], [⟨"VALUE", value⟩], [], [], []⟩

def absentItem : Workspace Kind :=
  let list : Block Kind := ⟨.createList, "lists_create_with", "l", [],
    [⟨"ADD0", [variableBlock "x" "g"]⟩, ⟨"ADD1", []⟩, ⟨"ADD2", []⟩], [], [], []⟩
  let join : Block Kind :=
    ⟨.join, "text_join", "j", [], [⟨"ADD0", [list]⟩, ⟨"ADD1", []⟩], [], [], []⟩
  let isAbsent : Block Kind := ⟨.compare, "logic_compare", "c", [("OP", "EQ")],
    [⟨"A", [variableBlock "y" "h"]⟩, ⟨"B", [variableBlock "x" "i"]⟩], [], [], []⟩
  ⟨[[assignBlock "x" "s" [variableBlock "x" "t"]],
    [assignBlock "y" "u" [join], assignBlock "z" "v" [isAbsent]]]⟩

theorem absentItem_agrees_without_host : ∃ e program σ, Steadily [] absentItem.chains.flatten ∧
    absentItem.run 1 [] = .ok e ∧ absentItem.compile = .ok program ∧
      e.bindings.names = ["x", "y", "z"] ∧
      execBody 1 program.body program.start = some (.none, σ) ∧
      ∀ name v, e.bindings.get? name = some v → ((σ.get? name).getD .undefined).runtime = v := by
  have hsteady : Steadily [] absentItem.chains.flatten := by decide
  have hrun : absentItem.run 1 [] =
      .ok ⟨.null, [("x", .null), ("y", .text ",,"), ("z", .boolean false)]⟩ := by
    with_unfolding_all rfl
  have hprogram : absentItem.compile.toOption.isSome = true := by decide +kernel
  cases hcompile : absentItem.compile with
  | error failure =>
    rw [hcompile] at hprogram
    exact absurd hprogram Bool.false_ne_true
  | ok program =>
    obtain ⟨σ, hexec, hvalues⟩ := run_agrees_without_host hsteady hrun hcompile
    exact ⟨_, program, σ, hsteady, hrun, rfl, rfl, hexec, hvalues⟩

def absentText : Graph :=
  { declarations := [{ name := "x" }, { name := "y" }]
    blocks := [[{
      kind := "variables_set"
      id := "s"
      fields := [("VAR", .string "y")]
      inputs := [{
        name := "VALUE"
        block := [{
          kind := "text_join"
          id := "j"
          inputs := [
            { name := "ADD0"
              block := [{ kind := "variables_get", id := "g", fields := [("VAR", .string "x")] }] },
            { name := "ADD1" }] }] }] }]] }

def absentTextBuilt : Workspace Kind :=
  let join : Block Kind := ⟨.join, "text_join", "j", [],
    [⟨"ADD0", [variableBlock "x" "g"]⟩, ⟨"ADD1", []⟩], [], [], []⟩
  ⟨[[assignBlock "x" "global:x" [variableBlock "x" "global:x:value"]],
    [assignBlock "y" "global:y" [variableBlock "y" "global:y:value"]],
    [assignBlock "y" "s" [join]]]⟩

/-- The run has a text of null where the program has one of undefined. -/
theorem absentText_differs : ∃ (e : Workspace.Execution) (program : Program) (σ : Store),
    Workspace.ofGraph (Registry.standard id) absentText = .ok absentTextBuilt ∧
      absentTextBuilt.run 1 [] = .ok e ∧ e.bindings.get? "y" = some (.text "null") ∧
      absentTextBuilt.compile = .ok program ∧
      execBody 1 program.body program.start = some (.none, σ) ∧
      σ.get? "y" = some (.text "undefined") := by
  refine ⟨⟨.null, [("x", .null), ("y", .text "null")]⟩,
    ⟨["x", "y"], [.expr (.assign "x" (.variable "x")), .expr (.assign "y" (.variable "y")),
      .expr (.assign "y" (Expr.toText (.variable "x")))]⟩,
    [("x", .undefined), ("y", .text "undefined")], ?_, ?_, rfl, ?_, ?_, rfl⟩
  · with_unfolding_all rfl
  · with_unfolding_all rfl
  · with_unfolding_all rfl
  · with_unfolding_all rfl

end Blockwork
