import Blockwork.Proofs.Compiler.Assignments

/-! Bodies and branches: the first condition that holds in the run is the first one in the program. -/

namespace Blockwork

open Target Structured

variable {names : List String} {limit : Nat} {b : Block Kind} {κ κ₁ : Context Expr}

def ChainSimulated (limit : Nat) (names : List String) (chain : List (Block Kind)) : Prop :=
  ∀ κ body κ₁, outcome (compileChain chain) κ = (.ok body, κ₁) →
    Simulates limit names (Free names κ.depth (chainRanges chain)) id body
      (structuredRest limit chain)

theorem structuredRest_eq (chain : List (Block Kind)) :
    structuredRest limit chain = Prod.snd <$> structuredChain limit chain := by
  cases chain with
  | nil => rfl
  | cons b rest =>
    rw [structuredRest, structuredChain, map_bind]
    refine bind_congr fun x => ?_
    obtain ⟨v, e⟩ := x
    by_cases he : e = .none
    · show (if e = .none then _ else _) = Prod.snd <$> (if e = .none then _ else _)
      rw [if_pos he, if_pos he, map_bind]
      simp
    · show (if e = .none then _ else _) = Prod.snd <$> (if e = .none then _ else _)
      rw [if_neg he, if_neg he]
      rfl

section

variable (hbodies : ∀ s ∈ b.statements, ChainSimulated limit names s.chain)

include hbodies

theorem simulates_body {name : String} {body : List Stmt}
    (h : outcome (b.codeParts.compileBody name) κ = (.ok body, κ₁)) :
    Simulates limit names (Free names κ.depth (slotRanges b.statements)) id body
      ((bodiesOf limit b.statements).run name) := by
  rw [Parts.compileBody, Block.statements_codeParts] at h
  rw [Bodies.run, bodiesOf_eq]
  obtain ⟨hcode, hread⟩ | ⟨s, hs, -, hcode, hread⟩ := lookup_sockets b.statements
    (fun s => (⟨!s.chain.isEmpty, ⟨compileExpression s.chain, compileChain s.chain⟩⟩ :
      Plug SlotCode)) (fun s => Prod.snd <$> structuredChain limit s.chain) name
  · rw [hcode] at h
    rw [hread]
    obtain ⟨rfl, -⟩ := pure_eq_ok.1 h
    exact .nil rfl
  · rw [hcode] at h
    rw [hread]
    show Simulates limit names _ id body (Prod.snd <$> structuredChain limit s.chain)
    rw [← structuredRest_eq]
    refine (hbodies s hs κ body κ₁ h).mono fun name hname => ?_
    exact hname.mono (Nat.le_refl _) fun v hv => mem_slotRanges.2 ⟨s, hs, hv⟩

theorem simulates_deeper {name : String} {body : List Stmt}
    (h : outcome (b.codeParts.compileBody name) κ.push = (.ok body, κ₁)) :
    Simulates limit names (Free names (κ.depth + 1) (slotRanges b.statements)) id body
      ((bodiesOf limit b.statements).run name) :=
  simulates_body hbodies h

theorem simulates_inBranch {name : String} {body : List Stmt}
    (h : outcome (Traversal.inBranch (b.codeParts.compileBody name)) κ = (.ok body, κ₁)) :
    Simulates limit names (Free names κ.depth (slotRanges b.statements)) id body
      (inScope ((bodiesOf limit b.statements).run name)) := by
  obtain ⟨κ₂, hbody, -⟩ := Traversal.inBranch_eq_ok h
  exact ((simulates_deeper hbodies hbody).mono Free.deeper).inScope

variable (hslots : ∀ (c : Context Value), ∀ s ∈ b.values,
  Mirrors c (Computes names c) (evaluateChain limit s.chain) (compileExpression s.chain))

include hslots

theorem simulates_arms {hasElse : Bool} {last : List Stmt} {free : String → Prop}
    (hfree : free = Free names κ.depth (slotRanges b.statements))
    (hlast : Simulates limit names free id last
      (if hasElse then inScope ((bodiesOf limit b.statements).run "ELSE") else pure .none))
    {slots : List Nat} {arms : List (Expr × List Stmt)}
    (h : outcome (b.codeParts.compileArms slots) κ = (.ok arms, κ₁)) :
    Simulates limit names free id
      (arms.foldr (fun (condition, body) otherwise => [.branch condition body otherwise]) last)
      ((bodiesOf limit b.statements).runArms (b.runParts limit).withoutBodies hasElse slots) := by
  induction slots generalizing κ κ₁ arms with
  | nil =>
    obtain ⟨rfl, -⟩ := pure_eq_ok.1 h
    exact hlast
  | cons i rest ih =>
    obtain ⟨condition, κ₂, hcondition, h⟩ := bind_eq_ok.1 h
    obtain ⟨body, κ₃, hbody, h⟩ := bind_eq_ok.1 h
    obtain ⟨arms, κ₄, harms, h⟩ := bind_eq_ok.1 h
    obtain ⟨rfl, -⟩ := pure_eq_ok.1 h
    -- every arm is compiled at one depth, so one set of names is free for all of them
    have hdepth₂ := (b.level_steps (.compile _)).depth_eq hcondition
    have hdepth₃ := (b.level_steps (.inBranch (.compileBody _))).depth_eq hbody
    have hthen := simulates_inBranch hbodies hbody
    have hotherwise := ih (by rw [hfree, hdepth₃, hdepth₂]) harms
    rw [hdepth₂, ← hfree] at hthen
    intro s e s' σ hr hσ
    obtain ⟨decided, s₁, hdecided, hr⟩ := bind_eq_ok.1 hr
    obtain ⟨rfl, w, hw, hdenotes⟩ := evaluates_condition hslots hcondition s decided s₁ hdecided
    cases decided with
    | true =>
      obtain ⟨σ', hrun, hσ', hkeeps⟩ := hthen s₁ e s' σ hr hσ
      exact ⟨σ', execBody_singleton (exec_branch_true (hdenotes σ hσ) hw hrun), hσ', hkeeps⟩
    | false =>
      obtain ⟨σ', hrun, hσ', hkeeps⟩ := hotherwise s₁ e s' σ hr hσ
      exact ⟨σ', execBody_singleton (exec_branch_false (hdenotes σ hσ) hw hrun), hσ', hkeeps⟩

theorem simulates_branch {alwaysElse : Bool} {body : List Stmt}
    (h : outcome (b.codeParts.compileBranch alwaysElse) κ = (.ok body, κ₁)) :
    Simulates limit names (Free names κ.depth (slotRanges b.statements)) id body
      ((bodiesOf limit b.statements).runBranch (b.runParts limit).withoutBodies alwaysElse) := by
  obtain ⟨⟨count, hasElse⟩, κ₂, hcount, h⟩ := bind_eq_ok.1 h
  obtain ⟨hx, rfl⟩ := Compilation.lift_eq_ok.1 hcount
  obtain ⟨arms, κ₃, harms, h⟩ := bind_eq_ok.1 h
  have hdepth := (b.level_steps (.compileArms _)).depth_eq harms
  have harm : ∀ last, Simulates limit names (Free names κ.depth (slotRanges b.statements)) id last
      (if hasElse then inScope ((bodiesOf limit b.statements).run "ELSE") else pure .none) →
      Simulates limit names (Free names κ.depth (slotRanges b.statements)) id
        (arms.foldr (fun (condition, body) otherwise => [.branch condition body otherwise]) last)
        ((bodiesOf limit b.statements).runBranch (b.runParts limit).withoutBodies alwaysElse) :=
    fun last hlast => .lift hx (simulates_arms hbodies hslots rfl hlast harms)
  cases hasElse with
  | true =>
    obtain ⟨last, κ₄, hlast, h⟩ := bind_eq_ok.1 h
    obtain ⟨rfl, -⟩ := pure_eq_ok.1 h
    refine harm last ?_
    rw [← hdepth]
    exact simulates_inBranch hbodies hlast
  | false =>
    obtain ⟨rfl, -⟩ := pure_eq_ok.1 h
    exact harm [] (.nil rfl)

end

end Blockwork
