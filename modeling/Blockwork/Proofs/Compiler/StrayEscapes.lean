import Blockwork.Proofs.Compiler.Values
import Blockwork.Proofs.Interpreter.Breaks

/-! Escapes outside of all loops. A run ends such an escape with its own chain; a compiled program has
one list of statements for all chains, so that there it would end what is left of the program. A
program has one just where the blocks of its workspace do, and without any it ends normally. -/

namespace Blockwork

open Target

namespace Target

mutual

/-- The statement has a break or a continue that is in none of its loops. -/
def Stmt.strays : Stmt → Bool
  | .expr _ | .whileLoop .. | .forLoop .. | .forEach .. => false
  | .branch _ body otherwise => bodyStrays body || bodyStrays otherwise
  | .breaking | .continuing => true

def bodyStrays : List Stmt → Bool
  | [] => false
  | s :: rest => s.strays || bodyStrays rest

end

theorem bodyStrays_append (body rest : List Stmt) :
    bodyStrays (body ++ rest) = (bodyStrays body || bodyStrays rest) := by
  induction body with
  | nil => rfl
  | cons s body ih => rw [List.cons_append, bodyStrays, ih, bodyStrays, Bool.or_assoc]

theorem bodyStrays_arms (arms : List (Expr × List Stmt)) (last : List Stmt) :
    bodyStrays (arms.foldr (fun (condition, body) otherwise => [.branch condition body otherwise])
      last) = (arms.any (fun arm => bodyStrays arm.2) || bodyStrays last) := by
  induction arms with
  | nil => rfl
  | cons arm rest ih =>
    simp only [List.foldr_cons, bodyStrays, Stmt.strays, ih, List.any_cons, Bool.or_assoc,
      Bool.or_false]

mutual

theorem Stmt.exec_normally {limit : Nat} {σ σ' : Store} {e : Escape} : ∀ s : Stmt,
    s.strays = false → s.exec limit σ = some (e, σ') → e = .none
  | .expr _, _, h | .whileLoop .., _, h => by
    obtain ⟨_, -, h⟩ := Option.bind_eq_some_iff.1 h
    exact (congrArg Prod.fst (Option.some.inj h)).symm
  | .forLoop .., _, h => by
    obtain ⟨_, -, h⟩ := Option.bind_eq_some_iff.1 h
    obtain ⟨_, -, h⟩ := Option.bind_eq_some_iff.1 h
    exact (congrArg Prod.fst (Option.some.inj h)).symm
  | .forEach .., _, h => by
    obtain ⟨⟨v, σ₁⟩, -, h⟩ := Option.bind_eq_some_iff.1 h
    cases v with
    | list items =>
      obtain ⟨_, -, h⟩ := Option.bind_eq_some_iff.1 h
      exact (congrArg Prod.fst (Option.some.inj h)).symm
    | _ => exact absurd h nofun
  | .branch _ body otherwise, hstrays, h => by
    obtain ⟨hbody, hotherwise⟩ := Bool.or_eq_false_iff.1 hstrays
    obtain ⟨⟨v, σ₁⟩, -, h⟩ := Option.bind_eq_some_iff.1 h
    replace h : (if v.truthy then execBody limit body σ₁ else execBody limit otherwise σ₁) =
      some (e, σ') := h
    split at h
    · exact execBody_normally body hbody h
    · exact execBody_normally otherwise hotherwise h
  | .breaking, hstrays, _ | .continuing, hstrays, _ => Bool.noConfusion hstrays

theorem execBody_normally {limit : Nat} {σ σ' : Store} {e : Escape} : ∀ body : List Stmt,
    bodyStrays body = false → execBody limit body σ = some (e, σ') → e = .none
  | [], _, h => (congrArg Prod.fst (Option.some.inj h)).symm
  | s :: rest, hstrays, h => by
    obtain ⟨hs, hrest⟩ := Bool.or_eq_false_iff.1 hstrays
    obtain ⟨⟨e₁, σ₁⟩, hfirst, h⟩ := Option.bind_eq_some_iff.1 h
    obtain rfl := Stmt.exec_normally s hs hfirst
    exact execBody_normally rest hrest h

end

end Target

/-! ### Blocks -/

section

variable (p : Parts Bool)

def Parts.straysIn (name : String) : Bool :=
  (p.statements.lookup name).any Plug.meaning

/-- Whether the block has an escape that is in none of its loops, given the same for its slots. Only
the slots count that become arms of the branch. -/
def Kind.strays : Kind → Bool
  | .flow => true
  | .branch alwaysElse =>
    match p.arms alwaysElse with
    | .ok (count, hasElse) =>
      (List.range count).any (fun i => p.straysIn (numbered "DO" i)) ||
        (hasElse && p.straysIn "ELSE")
    | .error _ => false
  | _ => false

end

mutual

def Block.strays : Block Kind → Bool
  | ⟨kind, tag, id, fields, _, statements, mutations, _⟩ =>
    kind.strays { tag, id, fields, mutations, values := [], statements := straySockets statements }

def straySockets : List (Socket Kind) → List (String × Plug Bool)
  | [] => []
  | ⟨name, chain⟩ :: rest => (name, ⟨!chain.isEmpty, chainStrays chain⟩) :: straySockets rest

def chainStrays : List (Block Kind) → Bool
  | [] => false
  | b :: rest => b.strays || chainStrays rest

end

def Block.strayParts (b : Block Kind) : Parts Bool :=
  { tag := b.tag
    id := b.id
    fields := b.fields
    mutations := b.mutations
    values := []
    statements := straySockets b.statements }

theorem Block.strays_eq (b : Block Kind) : b.strays = b.kind.strays b.strayParts := by
  cases b
  rfl

theorem straySockets_eq (sockets : List (Socket Kind)) : straySockets sockets =
    sockets.map fun s => (s.name, ⟨!s.chain.isEmpty, chainStrays s.chain⟩) := by
  induction sockets with
  | nil => rfl
  | cons s rest ih =>
    obtain ⟨name, chain⟩ := s
    rw [List.map_cons, ← ih]
    rfl

/-! ### Compiled blocks -/

section

variable {b : Block Kind}
  (hbodies : ∀ s ∈ b.statements, Gives (bodyStrays · = chainStrays s.chain) (compileChain s.chain))

include hbodies

theorem strays_compileBody (name : String) :
    Gives (bodyStrays · = b.strayParts.straysIn name) (b.codeParts.compileBody name) := by
  unfold Parts.compileBody Parts.straysIn
  rw [Block.statements_codeParts, Block.strayParts, straySockets_eq]
  obtain ⟨hcode, hstrays⟩ | ⟨s, hs, -, hcode, hstrays⟩ := lookup_sockets b.statements
    (fun s => (⟨!s.chain.isEmpty, ⟨compileExpression s.chain, compileChain s.chain⟩⟩ : Plug SlotCode))
    (fun s => (⟨!s.chain.isEmpty, chainStrays s.chain⟩ : Plug Bool)) name
  · rw [hcode, hstrays]
    exact .pure rfl
  · rw [hcode, hstrays]
    exact hbodies s hs

theorem strays_inBranch (name : String) : Gives (bodyStrays · = b.strayParts.straysIn name)
    (Traversal.inBranch (b.codeParts.compileBody name)) :=
  (strays_compileBody hbodies name).inBranch

theorem strays_compileArms (slots : List Nat) :
    Gives (fun arms : List (Expr × List Stmt) => arms.any (fun arm => bodyStrays arm.2) =
      slots.any fun i => b.strayParts.straysIn (numbered "DO" i)) (b.codeParts.compileArms slots) := by
  induction slots with
  | nil => exact .pure rfl
  | cons i rest ih =>
    refine .of_last fun condition => (strays_inBranch hbodies _).bind fun body hbody => ?_
    refine ih.bind fun arms harms => .pure ?_
    rw [List.any_cons, List.any_cons, hbody, harms]

theorem strays_compileBranch (alwaysElse : Bool) :
    Gives (bodyStrays · = (Kind.branch alwaysElse).strays b.strayParts)
      (b.codeParts.compileBranch alwaysElse) := by
  intro κ body κ' h
  obtain ⟨⟨count, hasElse⟩, κ₁, hcount, h⟩ := bind_eq_ok.1 h
  obtain ⟨hsettings, rfl⟩ := Compilation.lift_eq_ok.1 hcount
  obtain ⟨arms, κ₂, harms, h⟩ := bind_eq_ok.1 h
  have harms := strays_compileArms hbodies _ _ _ _ harms
  have hsettings : b.strayParts.arms alwaysElse = .ok (count, hasElse) := hsettings
  rw [Kind.strays, hsettings]
  -- Without a last branch its slot may still hold blocks, but none of them is compiled.
  cases hasElse with
  | true =>
    obtain ⟨last, κ₃, hlast, h⟩ := bind_eq_ok.1 h
    obtain ⟨rfl, -⟩ := pure_eq_ok.1 h
    rw [bodyStrays_arms, harms, strays_inBranch hbodies "ELSE" _ _ _ hlast]
    rfl
  | false =>
    obtain ⟨rfl, -⟩ := pure_eq_ok.1 h
    rw [bodyStrays_arms, harms]
    rfl

omit hbodies in
theorem strays_compileRepeat (source : CountSource) :
    Gives (bodyStrays · = false) (b.codeParts.compileRepeat source) := by
  refine .of_last fun κ => .of_last fun times => ?_
  have hrest : ∀ (counter : String) (before : List Stmt) (limit : Expr),
      bodyStrays before = false → Gives (bodyStrays · = false) (do
        Compilation.declare counter (.num 0)
        let body ← b.codeParts.compileLoopBody
        return before ++ [.forLoop (.assign counter (.num 0))
          (.binary .less (.variable counter) limit)
          (.assign counter (.binary .add (.variable counter) (.num 1))) body]) :=
    fun _ before _ h => .of_last fun _ => .of_last fun _ => .pure <| by
      rw [bodyStrays_append, h]
      rfl
  split
  · exact hrest _ _ _ rfl
  · exact .of_last fun _ => hrest _ _ _ rfl

omit hbodies in
theorem strays_compileRange : Gives (bodyStrays · = false) b.codeParts.compileRange :=
  .of_last fun _ => .of_last fun _ => .of_last fun _ => .of_last fun _ => .of_last fun _ =>
    .of_last fun _ => .of_last fun _ => .of_last fun _ => .of_last fun _ => .pure rfl

theorem strays_kind : Gives (fun code : Code => bodyStrays code.body = b.kind.strays b.strayParts)
    (b.kind.compile b.codeParts) := by
  cases b.kind with
  | branch alwaysElse => exact (strays_compileBranch hbodies alwaysElse).bind fun _ h => .pure h
  | repeatTimes source => exact (strays_compileRepeat source).bind fun _ h => .pure h
  | whileUntil =>
    have hloop : ∀ mode, Gives (bodyStrays · = false) (b.codeParts.compileWhileUntil mode) :=
      fun _ => .of_last fun _ => .of_last fun _ => .pure rfl
    exact .of_last fun mode => (hloop mode).bind fun _ h => .pure h
  | countRange => exact strays_compileRange.bind fun _ h => .pure h
  | forEach =>
    have hloop : Gives (bodyStrays · = false) b.codeParts.compileForEach :=
      .of_last fun _ => .of_last fun _ => .of_last fun _ => .of_last fun _ => .pure rfl
    exact hloop.bind fun _ h => .pure h
  | flow =>
    have hflow : Gives (bodyStrays · = true) b.codeParts.compileFlow := by
      intro κ body κ' h
      obtain ⟨escape, κ₁, hescape, h⟩ := bind_eq_ok.1 h
      obtain ⟨text, -, hlookup⟩ := Parts.option_eq_ok.1 (Compilation.lift_eq_ok.1 hescape).1
      cases escape with
      | none => exact absurd (mem_of_lookup hlookup) (by simp [flowOptions])
      | _ =>
        obtain ⟨rfl, -⟩ := pure_eq_ok.1 h
        rfl
    exact hflow.bind fun _ h => .pure h
  | null | emptyList => exact .pure rfl
  | boolean | not | constant | constrain | change | text | append | textLength | textIsEmpty | get
  | set | listLength | listIsEmpty => exact .of_last fun _ => .pure rfl
  | number | function | round | property | modulo | join | changeCase | trim | createList
  | repeatItem => exact .of_last fun _ => .of_last fun _ => .pure rfl
  | compare | junction | ternary | arithmetic =>
    exact .of_last fun _ => .of_last fun _ => .of_last fun _ => .pure rfl

end

/-! ### Chains and workspaces -/

theorem strays_compileChain (chain : List (Block Kind)) :
    Gives (bodyStrays · = chainStrays chain) (compileChain chain) := by
  refine Block.chain_induction
    (P := fun b => Gives (fun code : Code => bodyStrays code.body = b.strays) b.compile)
    (Q := fun chain => Gives (bodyStrays · = chainStrays chain) (compileChain chain))
    ?_ ?_ ?_ chain
  · intro b _ hbodies
    rw [Block.compile_eq, Block.strays_eq]
    exact strays_kind hbodies
  · exact .pure rfl
  · intro b rest hb hrest
    refine hb.bind fun code hcode => hrest.bind fun body hbody => .pure ?_
    rw [bodyStrays_append, hcode, hbody, chainStrays]

namespace Workspace

theorem strays_compileChains (chains : List (List (Block Kind))) :
    Gives (bodyStrays · = chains.any chainStrays) (compileChains chains) := by
  induction chains with
  | nil => exact .pure rfl
  | cons chain rest ih =>
    refine (strays_compileChain chain).bind fun body hbody => .of_last fun _ => ?_
    refine ih.bind fun others hothers => .pure ?_
    rw [bodyStrays_append, hbody, hothers, List.any_cons]

/-- The program of a workspace has an escape outside of all its loops just if one of the chains does,
through branches alone. If none does, nothing ends the program before its last statement. -/
theorem escapes_of_compiled {w : Workspace Kind} {program : Program} (h : w.compile = .ok program) :
    bodyStrays program.body = w.chains.any chainStrays ∧
      (w.chains.any chainStrays = false → ∀ limit σ e σ',
        execBody limit program.body σ = some (e, σ') → e = .none) := by
  obtain ⟨κ, hbody, -⟩ := compile_eq_ok h
  have hstrays := strays_compileChains w.chains _ _ _ hbody
  refine ⟨hstrays, fun hnone limit σ e σ' hexec => ?_⟩
  exact execBody_normally program.body (hstrays.trans hnone) hexec

theorem leftLoop_escapes : ∃ program, (⟨[leftLoop]⟩ : Workspace Kind).compile = .ok program ∧
    bodyStrays program.body = false ∧
      ∀ limit σ e σ', execBody limit program.body σ = some (e, σ') → e = .none := by
  have hprogram : (⟨[leftLoop]⟩ : Workspace Kind).compile.toOption.isSome = true := by
    decide +kernel
  have hnone : [leftLoop].any chainStrays = false := by decide +kernel
  cases hcompile : (⟨[leftLoop]⟩ : Workspace Kind).compile with
  | error failure =>
    rw [hcompile] at hprogram
    exact absurd hprogram Bool.false_ne_true
  | ok program =>
    obtain ⟨hstrays, hends⟩ := escapes_of_compiled hcompile
    exact ⟨program, rfl, hstrays.trans hnone, hends hnone⟩

def leadingBreak : Graph :=
  { blocks := [
      [{ kind := "controls_flow_statements", id := "f", fields := [("FLOW", .string "BREAK")] }],
      [{ kind := "variables_set"
         id := "s"
         fields := [("VAR", .string "x")]
         inputs := [{
           name := "VALUE"
           block := [{ kind := "text", id := "t", fields := [("TEXT", .string "a")] }] }] }]] }

/-- The run ends the chain with the break and assigns then. The program ends at the break. -/
theorem leadingBreak_ends_program : ∃ (w : Workspace Kind) (e : Execution) (program : Program),
    Workspace.ofGraph (Registry.standard id) leadingBreak = .ok w ∧
      w.run 1 [] = .ok e ∧ e.bindings = [("x", .text "a")] ∧
      w.compile = .ok program ∧ program.declared = ["x"] ∧ bodyStrays program.body = true ∧
      ∀ limit σ, execBody limit program.body σ = some (.breaking, σ) := by
  refine ⟨⟨[[⟨.flow, "controls_flow_statements", "f", [("FLOW", "BREAK")], [], [], [], []⟩],
    [⟨.set, "variables_set", "s", [("VAR", "x")],
      [⟨"VALUE", [⟨.text, "text", "t", [("TEXT", "a")], [], [], [], []⟩]⟩], [], [], []⟩]]⟩,
    ⟨.null, [("x", .text "a")]⟩, ⟨["x"], [.breaking, .expr (.assign "x" (.text "a"))]⟩,
    ?_, ?_, rfl, ?_, rfl, rfl, fun _ _ => rfl⟩
  · with_unfolding_all rfl
  · with_unfolding_all rfl
  · with_unfolding_all rfl

end Workspace

end Blockwork
