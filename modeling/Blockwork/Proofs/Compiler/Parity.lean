import Blockwork.Proofs.Compiler.RangeLoops

/-! A workspace and its compiled program give the variables of the host the same values, where the
program keeps to the part of the language that both share. -/

namespace Blockwork

open Target Structured
open Parts (counterName)

variable {names : List String} {limit : Nat}

section

variable {b : Block Kind} {κ κ₁ : Context Expr} {code : Code}
  (hslots : ∀ (c : Context Value), ∀ s ∈ b.values,
    Mirrors c (Computes names c) (evaluateChain limit s.chain) (compileExpression s.chain))
  (hbodies : ∀ s ∈ b.statements, ChainSimulated limit names s.chain)

theorem simulates_flow {ranges : List String}
    (h : outcome (Kind.flow.compile b.codeParts) κ = (.ok code, κ₁)) :
    Simulates limit names (Free names κ.depth ranges) Prod.snd code.body
      (Kind.flow.structured limit (b.runParts limit).withoutBodies
        (bodiesOf limit b.statements)) := by
  obtain ⟨stmts, hflow, rfl⟩ := map_eq_ok.1 h
  obtain ⟨escape, κ₂, hescape, hstmts⟩ := bind_eq_ok.1 hflow
  obtain ⟨hoption, rfl⟩ := Compilation.lift_eq_ok.1 hescape
  refine .lift hoption fun s a s' σ hr hσ => ?_
  obtain ⟨rfl, rfl⟩ := pure_eq_ok.1 hr
  refine ⟨σ, ?_, hσ, .refl _ _⟩
  cases escape <;> obtain ⟨rfl, -⟩ := pure_eq_ok.1 hstmts <;> rfl

include hslots hbodies

theorem simulates_kind (hshared : b.Shared names)
    (hcounters : ∀ k, ∀ name ∈ counterNames k, name ∉ names)
    (hranges : ∀ v ∈ slotRanges b.statements, v ∈ names)
    (h : outcome (b.kind.compile b.codeParts) κ = (.ok code, κ₁)) :
    Simulates limit names (Free names κ.depth b.ranges) Prod.snd code.body
      (b.kind.structured limit (b.runParts limit).withoutBodies (bodiesOf limit b.statements)) := by
  have hfree : ∀ name, Free names κ.depth b.ranges name →
      Free names κ.depth (slotRanges b.statements) name := by
    intro name hname
    refine hname.mono (Nat.le_refl _) ?_
    rw [b.ranges_eq]
    exact List.subset_append_right ..
  have hunit : ∀ {body r}, Simulates limit names (Free names κ.depth b.ranges)
      (fun (_ : Unit) => .none) body r → Simulates limit names (Free names κ.depth b.ranges) Prod.snd
        body (r >>= fun _ => pure (Value.null, Escape.none)) := fun h => h.map fun _ => rfl
  cases hk : b.kind with
  | branch alwaysElse =>
    rw [hk] at h
    obtain ⟨stmts, hbranch, rfl⟩ := map_eq_ok.1 h
    exact ((simulates_branch hbodies hslots hbranch).mono hfree).map fun _ => rfl
  | repeatTimes source =>
    rw [hk] at h
    obtain ⟨stmts, hrepeat, rfl⟩ := map_eq_ok.1 h
    exact hunit ((simulates_repeat hbodies hslots hcounters hranges hrepeat).mono hfree)
  | whileUntil =>
    rw [hk] at h
    obtain ⟨mode, κ₂, hmode, h⟩ := bind_eq_ok.1 h
    obtain ⟨hoption, rfl⟩ := Compilation.lift_eq_ok.1 hmode
    obtain ⟨stmts, κ₃, hloop, hpure⟩ := bind_eq_ok.1 h
    obtain ⟨rfl, rfl⟩ := pure_eq_ok.1 hpure
    refine .lift hoption (hunit ((simulates_whileUntil hbodies hslots ?_ hloop).mono hfree))
    -- in the shared part the body of a loop that repeats until a condition raises no escape
    rintro rfl
    obtain ⟨text, htext, hlookup⟩ := Parts.option_eq_ok.1 hoption
    obtain rfl : text = "UNTIL" := by
      simpa [LoopMode.options] using mem_of_lookup hlookup
    have huntil : b.isUntil = true := by
      rw [Block.isUntil, hk, decide_eq_true rfl, Bool.true_and]
      exact decide_eq_true htext
    exact gives_body limit (fun s hs => (gives_structuredChain limit s.chain
      (hshared.tame.bodies huntil s hs)).1) "DO"
  | countRange =>
    rw [hk] at h
    obtain ⟨stmts, hrange, rfl⟩ := map_eq_ok.1 h
    exact hunit (simulates_range hbodies hslots hk hshared hcounters hrange)
  | forEach =>
    rw [hk] at h
    obtain ⟨stmts, hloop, rfl⟩ := map_eq_ok.1 h
    exact hunit ((simulates_forEach hbodies hslots hshared.bound hloop).mono hfree)
  | flow =>
    rw [hk] at h
    exact simulates_flow h
  | change =>
    rw [hk] at h
    exact simulates_assignment (assigns_change hshared.bound hslots) h fun _ => Free.unbound
  | append =>
    rw [hk] at h
    exact simulates_assignment (assigns_append hshared.bound hslots) h fun _ => Free.unbound
  | set =>
    rw [hk] at h
    exact simulates_assignment (assigns_set hshared.bound hslots) h fun _ => Free.unbound
  | _ =>
    have hvalue : b.kind.isValue = true := by rw [hk]; rfl
    have hmirrors : ∀ c : Context Value, Mirrors c (Code.Denotes names c.scopes)
        (b.kind.evaluate limit (b.runParts limit)) (b.kind.compile b.codeParts) := fun c =>
      mirrors_kind hvalue hshared (hslots c)
    rw [hk] at h hmirrors
    exact simulates_reading hmirrors h

end

/-! ### Chains -/

theorem ranges_bound {chain : List (Block Kind)}
    (hshared : Block.AllOf (Block.Shared names) chain) : ∀ v ∈ chainRanges chain, v ∈ names := by
  revert hshared
  refine Block.chain_induction
    (P := fun b => b.All (Block.Shared names) → ∀ v ∈ b.ranges, v ∈ names)
    (Q := fun chain => Block.AllOf (Block.Shared names) chain → ∀ v ∈ chainRanges chain, v ∈ names)
    ?_ ?_ ?_ chain
  · intro b _ hbodies hall v hv
    obtain ⟨hb, -, hstatements⟩ := Block.all_iff.1 hall
    rw [b.ranges_eq] at hv
    rcases List.mem_append.1 hv with hv | hv
    · split at hv
      · exact hb.bound v (Option.mem_toList.1 hv)
      · exact absurd hv List.not_mem_nil
    · obtain ⟨s, hs, hv⟩ := mem_slotRanges.1 hv
      exact hbodies s hs (hstatements s hs) v hv
  · exact fun _ v hv => absurd hv List.not_mem_nil
  · intro b rest hb hrest hall v hv
    rcases List.mem_append.1 hv with hv | hv
    · exact hb hall.1 v hv
    · exact hrest hall.2 v hv

theorem simulates_chain (hcounters : ∀ k, ∀ name ∈ counterNames k, name ∉ names)
    {chain : List (Block Kind)} (hshared : Block.AllOf (Block.Shared names) chain) :
    ChainSimulated limit names chain := by
  revert hshared
  refine Block.chain_induction
    (P := fun b => b.All (Block.Shared names) → ∀ κ code κ₁,
      outcome b.compile κ = (.ok code, κ₁) →
        Simulates limit names (Free names κ.depth b.ranges) Prod.snd code.body
          (b.structured limit))
    (Q := fun chain => Block.AllOf (Block.Shared names) chain → ChainSimulated limit names chain)
    ?_ ?_ ?_ chain
  · intro b _ hbodies hall κ code κ₁ h
    obtain ⟨hb, hvalues, hstatements⟩ := Block.all_iff.1 hall
    rw [Block.compile_eq] at h
    rw [Block.structured_eq]
    refine simulates_kind (fun c s hs => ?_) (fun s hs => hbodies s hs (hstatements s hs)) hb
      hcounters ?_ h
    · exact mirrors_evaluateChain c (hvalues s hs) (hb.tame.values s hs)
    · intro v hv
      obtain ⟨s, hs, hv⟩ := mem_slotRanges.1 hv
      exact ranges_bound (hstatements s hs) v hv
  · intro _ κ body κ₁ h
    obtain ⟨rfl, -⟩ := pure_eq_ok.1 h
    exact .nil rfl
  · intro b rest hb hrest hall κ body κ₁ h
    obtain ⟨code, κ₂, hcode, h⟩ := bind_eq_ok.1 h
    obtain ⟨stmts, κ₃, hstmts, hpure⟩ := bind_eq_ok.1 h
    obtain ⟨rfl, rfl⟩ := pure_eq_ok.1 hpure
    have hblock := hb hall.1 κ code κ₂ hcode
    have hafter := hrest hall.2 κ₂ stmts κ₃ hstmts
    rw [b.level_compile.depth_eq hcode] at hafter
    have hleft : ∀ name, Free names κ.depth (chainRanges (b :: rest)) name →
        Free names κ.depth b.ranges name := fun name hname =>
      hname.mono (Nat.le_refl _) (List.subset_append_left ..)
    have hright : ∀ name, Free names κ.depth (chainRanges (b :: rest)) name →
        Free names κ.depth (chainRanges rest) name := fun name hname =>
      hname.mono (Nat.le_refl _) (List.subset_append_right ..)
    refine (hblock.mono hleft).append (fun x hx => ?_) fun x hx => ⟨x.2, ?_, rfl⟩
    · obtain ⟨v, e⟩ := x
      obtain rfl : e = .none := hx
      exact hafter.mono hright
    · obtain ⟨v, e⟩ := x
      exact if_neg hx

/-! ### Workspaces -/

/-- The host binds every variable and no name that the compiler makes up; all blocks are in the
shared part, and every escape stands in a loop. -/
structure Workspace.Shared (names : List String) (w : Workspace Kind) : Prop where
  counters : ∀ k, ∀ name ∈ counterNames k, name ∉ names
  blocks : ∀ chain ∈ w.chains, Block.AllOf (Block.Shared names) chain
  quiet : ∀ chain ∈ w.chains, chainRaises chain = false

theorem outcome_quiet {chain : List (Block Kind)} (htame : Block.AllOf Block.Tame chain)
    (hquiet : chainRaises chain = false) {c c' : Context Value} (hc : c.escape = .none) {v : Value}
    (h : outcome (evaluateChain limit chain) c = (.ok v, c')) :
    c'.escape = .none ∧ outcome (structuredRest limit chain) c.scopes = (.ok .none, c'.scopes) := by
  have hread := ((ends_evaluateChain limit chain htame).1 c hc).2.2
  rw [h] at hread
  have hnone : c'.escape = .none :=
    (gives_structuredChain limit chain hquiet).1 c.scopes (v, c'.escape) c'.scopes hread
  refine ⟨hnone, ?_⟩
  rw [structuredRest_eq, map_eq_ok]
  exact ⟨(v, c'.escape), hread, hnone⟩

theorem simulates_chains (hcounters : ∀ k, ∀ name ∈ counterNames k, name ∉ names)
    {chains : List (List (Block Kind))}
    (hblocks : ∀ chain ∈ chains, Block.AllOf (Block.Shared names) chain)
    (hquiet : ∀ chain ∈ chains, chainRaises chain = false) {last v : Value} {c c' : Context Value}
    (hrun : outcome (Workspace.evaluateFrom limit last chains) c = (.ok v, c'))
    (hc : c.escape = .none) {κ κ₁ : Context Expr} {body : List Stmt}
    (hcompile : outcome (Workspace.compileChains chains) κ = (.ok body, κ₁)) {σ : Store}
    (hσ : Agrees names c.scopes σ) :
    ∃ σ', execBody limit body σ = some (.none, σ') ∧ Agrees names c'.scopes σ' := by
  induction chains generalizing last c κ body σ with
  | nil =>
    obtain ⟨-, rfl⟩ := pure_eq_ok.1 hrun
    obtain ⟨rfl, -⟩ := pure_eq_ok.1 hcompile
    exact ⟨σ, rfl, hσ⟩
  | cons chain rest ih =>
    rw [List.forall_mem_cons] at hblocks hquiet
    obtain ⟨w, c₁, hchain, hrun⟩ := bind_eq_ok.1 hrun
    obtain ⟨e, c₂, htake, hrun⟩ := bind_eq_ok.1 hrun
    obtain ⟨-, rfl⟩ := Prod.mk.inj htake
    obtain ⟨stmts, κ₂, hstmts, hcompile⟩ := bind_eq_ok.1 hcompile
    obtain ⟨e', κ₃, -, hcompile⟩ := bind_eq_ok.1 hcompile
    obtain ⟨after, κ₄, hafter, hpure⟩ := bind_eq_ok.1 hcompile
    obtain ⟨rfl, rfl⟩ := pure_eq_ok.1 hpure
    have htame := hblocks.1.mono fun b hb => hb.tame
    obtain ⟨hnone, hread⟩ := outcome_quiet htame hquiet.1 hc hchain
    obtain ⟨σ₁, hexec, hσ₁, -⟩ := simulates_chain hcounters hblocks.1 κ stmts κ₂ hstmts c.scopes
      .none c₁.scopes σ hread hσ
    have hσ₁ : Agrees names (c₁.setEscape .none).scopes σ₁ := by
      rw [Context.scopes_setEscape]
      exact hσ₁
    obtain ⟨σ₂, hexec₂, hσ₂⟩ := ih hblocks.2 hquiet.2 hrun (Context.escape_setEscape c₁ .none)
      hafter hσ₁
    refine ⟨σ₂, ?_, hσ₂⟩
    rw [execBody_append, hexec]
    exact hexec₂

def storeOf (bindings : List (String × Value)) : Store :=
  Entries.ofList (bindings.map fun e => (e.1, e.2.target))

namespace Entries

variable {α β : Type} (f : α → β)

theorem map_put (es : Entries α) (name : String) (v : α) :
    (es.put name v).map (fun e => (e.1, f e.2)) =
      Entries.put (es.map fun e => (e.1, f e.2)) name (f v) := by
  induction es with
  | nil => rfl
  | cons e rest ih =>
    by_cases h : e.1 = name
    · simp [put, h]
    · simp [put, h, ih]

theorem map_ofList (es : List (String × α)) :
    (ofList es).map (fun e => (e.1, f e.2)) = ofList (es.map fun e => (e.1, f e.2)) := by
  have key : ∀ acc : Entries α, (es.foldl (fun acc e => acc.put e.1 e.2) acc).map
      (fun e => (e.1, f e.2)) = (es.map fun e => (e.1, f e.2)).foldl
        (fun acc e => Entries.put acc e.1 e.2) (acc.map fun e => (e.1, f e.2)) := by
    induction es with
    | nil => exact fun _ => rfl
    | cons e rest ih =>
      intro acc
      rw [List.foldl_cons, List.map_cons, List.foldl_cons, ih, map_put]
  exact key []

theorem get?_map (es : Entries α) (name : String) :
    Entries.get? (es.map fun e => (e.1, f e.2)) name = (es.get? name).map f := by
  induction es with
  | nil => rfl
  | cons e rest ih =>
    obtain ⟨k, v⟩ := e
    simp only [get?, List.map_cons, List.lookup_cons] at ih ⊢
    split
    · rfl
    · exact ih

end Entries

theorem agrees_ofBindings (bindings : List (String × Value)) :
    Agrees (Entries.ofList bindings).names (Context.ofBindings bindings).scopes
      (storeOf bindings) := by
  refine ⟨rfl, fun _ h => absurd h List.not_mem_nil, fun name v hv => ?_⟩
  have hv : (Entries.ofList bindings).get? name = some v := hv
  rw [storeOf, ← Entries.map_ofList Value.target, Entries.get?_map, hv]
  rfl

/-- Where a workspace runs and compiles, its program ends too, and then every variable of the host
has in the store the value that the run gave it. -/
theorem run_agrees_with_program {w : Workspace Kind} {bindings : List (String × Value)}
    (hshared : w.Shared (Entries.ofList bindings).names) {e : Workspace.Execution}
    {program : Program} (hrun : w.run limit bindings = .ok e)
    (hcompile : w.compile = .ok program) :
    ∃ σ, execBody limit program.body (storeOf bindings) = some (.none, σ) ∧
      ∀ name v, e.bindings.get? name = some v → σ.get? name = some v.target := by
  unfold Workspace.run at hrun
  split at hrun
  · rename_i v c hevaluate
    obtain rfl := Except.ok.inj hrun
    have hgenerate : outcome w.generate {} = (.ok program, (outcome w.generate {}).2) :=
      Prod.ext hcompile rfl
    obtain ⟨body, κ, hbody, hdeclared⟩ := bind_eq_ok.1 hgenerate
    obtain ⟨κ', κ₁, -, hpure⟩ := bind_eq_ok.1 hdeclared
    obtain ⟨rfl, -⟩ := pure_eq_ok.1 hpure
    obtain ⟨σ, hexec, hσ⟩ := simulates_chains hshared.counters hshared.blocks hshared.quiet hevaluate
      rfl hbody (agrees_ofBindings bindings)
    exact ⟨σ, hexec, hσ.values⟩
  · exact absurd hrun (by simp)

def partialSum : Workspace Kind :=
  let number (text : String) : Block Kind :=
    ⟨.number, "math_number", "n", [("NUM", text)], [], [], [], []⟩
  let item : Block Kind := ⟨.get, "variables_get", "g", [("VAR", "i")], [], [], [], []⟩
  let isThird : Block Kind := ⟨.compare, "logic_compare", "c", [("OP", "GT")],
    [⟨"A", [item]⟩, ⟨"B", [number "2"]⟩], [], [], []⟩
  let escape : Block Kind :=
    ⟨.flow, "controls_flow_statements", "f", [("FLOW", "BREAK")], [], [], [], []⟩
  let branch : Block Kind :=
    ⟨.branch false, "controls_if", "b", [], [⟨"IF0", [isThird]⟩], [⟨"DO0", [escape]⟩], [], []⟩
  let change : Block Kind :=
    ⟨.change, "math_change", "a", [("VAR", "sum")], [⟨"DELTA", [item]⟩], [], [], []⟩
  ⟨[[⟨.countRange, "controls_for", "r", [("VAR", "i")],
    [⟨"FROM", [number "1"]⟩, ⟨"TO", [number "9"]⟩, ⟨"BY", [number "1"]⟩],
    [⟨"DO", [branch, change]⟩], [], []⟩]]⟩

def partialSumBindings : List (String × Value) := [("sum", .number 0), ("i", .number 0)]

theorem partialSum_agrees_with_program : ∃ e program σ,
    partialSum.Shared (Entries.ofList partialSumBindings).names ∧
      partialSum.run 5 partialSumBindings = .ok e ∧ partialSum.compile = .ok program ∧
      (e.bindings.get? "sum").any (·.equals (.number 3)) = true ∧
      execBody 5 program.body (storeOf partialSumBindings) = some (.none, σ) ∧
      ∀ name v, e.bindings.get? name = some v → σ.get? name = some v.target := by
  have hshared : partialSum.Shared (Entries.ofList partialSumBindings).names := by
    refine ⟨fun k name hname => ?_, by decide, by decide⟩
    have hhead : ∀ other ∈ (Entries.ofList partialSumBindings).names,
        other.toList.head? ≠ some 'c' := by decide
    exact fun hbound => hhead name hbound (head?_counterNames hname)
  have hsum : (partialSum.run 5 partialSumBindings).toOption.any
      (fun e => (e.bindings.get? "sum").any (·.equals (.number 3))) = true := by decide +kernel
  have hprogram : partialSum.compile.toOption.isSome = true := by decide +kernel
  cases hrun : partialSum.run 5 partialSumBindings with
  | error halt =>
    rw [hrun] at hsum
    exact absurd hsum Bool.false_ne_true
  | ok e =>
    rw [hrun] at hsum
    cases hcompile : partialSum.compile with
    | error failure =>
      rw [hcompile] at hprogram
      exact absurd hprogram Bool.false_ne_true
    | ok program =>
      obtain ⟨σ, hexec, hvalues⟩ := run_agrees_with_program hshared hrun hcompile
      exact ⟨e, program, σ, hshared, rfl, rfl, hsum, hexec, hvalues⟩

end Blockwork
