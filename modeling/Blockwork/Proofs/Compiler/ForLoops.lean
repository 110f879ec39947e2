import Blockwork.Proofs.Compiler.Declarations

/-! The loops of a program that count. Each comes from one block that repeats or runs through a range,
and its body from the blocks in that block's slots. -/

namespace Blockwork

open Target
open Parts (counterName)

namespace Target

/-! ### The loops of a program -/

structure ForLoop where
  start : Expr
  condition : Expr
  update : Expr
  body : List Stmt

def ForLoop.stmt (loop : ForLoop) : Stmt :=
  .forLoop loop.start loop.condition loop.update loop.body

mutual

def Stmt.forLoops : Stmt → List ForLoop
  | .branch _ body otherwise => bodyForLoops body ++ bodyForLoops otherwise
  | .whileLoop _ body | .forEach _ _ body => bodyForLoops body
  | .forLoop start condition update body => ⟨start, condition, update, body⟩ :: bodyForLoops body
  | .expr _ | .breaking | .continuing => []

def bodyForLoops : List Stmt → List ForLoop
  | [] => []
  | s :: rest => s.forLoops ++ bodyForLoops rest

end

theorem bodyForLoops_append (body rest : List Stmt) :
    bodyForLoops (body ++ rest) = bodyForLoops body ++ bodyForLoops rest := by
  induction body with
  | nil => rfl
  | cons s body ih => rw [List.cons_append, bodyForLoops, ih, bodyForLoops, List.append_assoc]

mutual

theorem Stmt.mem_assigned_of_start {loop : ForLoop} {name : String} (hname : name ∈ loop.start.assigned) :
    ∀ s : Stmt, loop ∈ s.forLoops → name ∈ s.assigned
  | .branch _ body otherwise, h => by
    rw [Stmt.assigned, List.mem_append, List.mem_append]
    rcases List.mem_append.1 h with h | h
    · exact .inr (.inl (mem_bodyAssigned_of_start hname body h))
    · exact .inr (.inr (mem_bodyAssigned_of_start hname otherwise h))
  | .whileLoop _ body, h => List.mem_append.2 (.inr (mem_bodyAssigned_of_start hname body h))
  | .forEach _ _ body, h =>
    List.mem_cons_of_mem _ (List.mem_append.2 (.inr (mem_bodyAssigned_of_start hname body h)))
  | .forLoop start condition update body, h => by
    rw [Stmt.assigned, List.mem_append, List.mem_append, List.mem_append]
    rcases List.mem_cons.1 h with rfl | h
    · exact .inl hname
    · exact .inr (.inr (.inr (mem_bodyAssigned_of_start hname body h)))
  | .expr _, h | .breaking, h | .continuing, h => absurd h List.not_mem_nil

theorem mem_bodyAssigned_of_start {loop : ForLoop} {name : String} (hname : name ∈ loop.start.assigned) :
    ∀ body : List Stmt, loop ∈ bodyForLoops body → name ∈ bodyAssigned body
  | [], h => absurd h List.not_mem_nil
  | s :: rest, h => by
    rw [bodyAssigned, List.mem_append]
    rcases List.mem_append.1 h with h | h
    · exact .inl (s.mem_assigned_of_start hname h)
    · exact .inr (mem_bodyAssigned_of_start hname rest h)

end

def ForLoop.counting (counter : String) (bound : Expr) (body : List Stmt) : ForLoop :=
  ⟨.assign counter (.num 0), .binary .less (.variable counter) bound,
    .assign counter (.binary .add (.variable counter) (.num 1)), body⟩

def ForLoop.ranging (name : String) (body : List Stmt) : ForLoop :=
  ⟨.assign name (.variable (name ++ "_start")), rangeCondition name, rangeUpdate name, body⟩

end Target

/-! ### The blocks that loops come from -/

/-- A slot of the block has this code, compiled at the depth. One that is not there has none. -/
def Block.Fills (b : Block Kind) (depth : Nat) (body : List Stmt) : Prop :=
  body = [] ∨ ∃ s ∈ b.statements, ∃ κ κ', κ.depth = depth ∧
    outcome (compileChain s.chain) κ = (.ok body, κ')

inductive Block.Becomes (b : Block Kind) (depth : Nat) (body : List Stmt) : ForLoop → Prop
  | counting {source : CountSource} {bound : Expr} (hkind : b.kind = .repeatTimes source)
      (hbound : bound.isNumber = true ∨ bound = .variable (counterName depth ++ "_end")) :
    Block.Becomes b depth body (.counting (counterName depth) bound body)
  | ranging {name : String} (hkind : b.kind = .countRange) (hname : b.fields.get? "VAR" = some name) :
    Block.Becomes b depth body (.ranging name body)

theorem Block.fills_compileBody {b : Block Kind} {name : String} {κ κ' : Context Expr}
    {body : List Stmt} (h : outcome (b.codeParts.compileBody name) κ = (.ok body, κ')) :
    b.Fills κ.depth body := by
  unfold Parts.compileBody at h
  split at h
  · obtain ⟨rfl, -⟩ := pure_eq_ok.1 h
    exact .inl rfl
  · have hplug := mem_of_lookup ‹_›
    rw [Block.statements_codeParts, List.mem_map] at hplug
    obtain ⟨s, hs, heq⟩ := hplug
    obtain ⟨-, rfl⟩ := Prod.mk.inj heq
    exact .inr ⟨s, hs, κ, κ', rfl, h⟩

theorem Block.fills_compileLoopBody {b : Block Kind} {κ κ' : Context Expr} {body : List Stmt}
    (h : outcome b.codeParts.compileLoopBody κ = (.ok body, κ')) : b.Fills (κ.depth + 1) body := by
  obtain ⟨κ₁, h, -⟩ := Traversal.inLoop_eq_ok h
  exact fills_compileBody h

def AllLoops (P : ForLoop → Prop) (body : List Stmt) : Prop := ∀ loop ∈ bodyForLoops body, P loop

namespace AllLoops

variable {P : ForLoop → Prop} {body rest : List Stmt}

theorem nil : AllLoops P [] := fun _ h => absurd h List.not_mem_nil

theorem append (h : AllLoops P body) (h' : AllLoops P rest) : AllLoops P (body ++ rest) := by
  intro loop hloop
  rw [bodyForLoops_append, List.mem_append] at hloop
  exact hloop.elim (h loop) (h' loop)

theorem branch (condition : Expr) (h : AllLoops P body) (h' : AllLoops P rest) :
    AllLoops P [.branch condition body rest] := by
  intro loop hloop
  rw [bodyForLoops, bodyForLoops, List.append_nil] at hloop
  exact (List.mem_append.1 hloop).elim (h loop) (h' loop)

theorem forLoop {loop : ForLoop} (hown : P loop) (h : AllLoops P loop.body) :
    AllLoops P [loop.stmt] := by
  intro other hother
  rw [bodyForLoops, bodyForLoops, List.append_nil] at hother
  exact (List.mem_cons.1 hother).elim (fun heq => heq ▸ hown) (h other)

theorem arms {arms : List (Expr × List Stmt)} (h : ∀ arm ∈ arms, AllLoops P arm.2)
    (hrest : AllLoops P rest) : AllLoops P (arms.foldr
      (fun (condition, body) otherwise => [.branch condition body otherwise]) rest) := by
  induction arms with
  | nil => exact hrest
  | cons arm arms ih =>
    rw [List.forall_mem_cons] at h
    exact .branch arm.1 h.1 (ih h.2)

end AllLoops

section

variable {P : ForLoop → Prop} {b : Block Kind}
  (hbodies : ∀ s ∈ b.statements, Gives (AllLoops P) (compileChain s.chain))
  (hown : ∀ depth body loop, b.Fills (depth + 1) body → b.Becomes depth body loop → P loop)

include hbodies

theorem Block.Fills.allLoops {depth : Nat} {body : List Stmt} (h : b.Fills depth body) :
    AllLoops P body := by
  obtain rfl | ⟨s, hs, κ, κ', -, hbody⟩ := h
  · exact .nil
  · exact hbodies s hs κ body κ' hbody

theorem allLoops_loopBody : Gives (AllLoops P) b.codeParts.compileLoopBody :=
  fun _ _ _ h => (Block.fills_compileLoopBody h).allLoops hbodies

theorem allLoops_inBranch (name : String) :
    Gives (AllLoops P) (Traversal.inBranch (b.codeParts.compileBody name)) :=
  .inBranch fun _ _ _ h => (Block.fills_compileBody h).allLoops hbodies

theorem allLoops_compileArms (arms : List Nat) :
    Gives (fun arms : List (Expr × List Stmt) => ∀ arm ∈ arms, AllLoops P arm.2)
      (b.codeParts.compileArms arms) := by
  induction arms with
  | nil => exact .pure fun _ h => absurd h List.not_mem_nil
  | cons i rest ih =>
    refine .of_last fun condition => (allLoops_inBranch hbodies _).bind fun body hbody => ?_
    exact ih.bind fun arms harms => .pure (List.forall_mem_cons.2 ⟨hbody, harms⟩)

theorem allLoops_compileBranch (alwaysElse : Bool) :
    Gives (AllLoops P) (b.codeParts.compileBranch alwaysElse) := by
  refine .of_last fun _ => (allLoops_compileArms hbodies _).bind fun arms harms => ?_
  split
  · exact (allLoops_inBranch hbodies _).bind fun last hlast => .pure (.arms harms hlast)
  · exact .pure (.arms harms .nil)

include hown

theorem allLoops_compileRepeat {source : CountSource} (hkind : b.kind = .repeatTimes source) :
    Gives (AllLoops P) (b.codeParts.compileRepeat source) := by
  rw [compileRepeat_eq]
  intro κ code κ' h
  obtain ⟨κ₀, κ₁, hget, h⟩ := bind_eq_ok.1 h
  obtain ⟨hκ, rfl⟩ := Prod.mk.inj hget
  obtain rfl := Except.ok.inj hκ
  obtain ⟨times, κ₂, htimes, h⟩ := bind_eq_ok.1 h
  obtain ⟨⟨before, bound⟩, κ₃, hbefore, h⟩ := bind_eq_ok.1 h
  obtain ⟨_, κ₄, hdeclare, h⟩ := bind_eq_ok.1 h
  obtain ⟨body, κ₅, hbody, h⟩ := bind_eq_ok.1 h
  obtain ⟨rfl, -⟩ := pure_eq_ok.1 h
  have hdepth : κ₄.depth = κ.depth := by
    have hκ₂ := (b.level_steps (.countCode source)).depth_eq htimes
    have hκ₃ := (level_boundCode _ times).depth_eq hbefore
    have hκ₄ := (Level.declare _ _).depth_eq hdeclare
    exact hκ₄.trans (hκ₃.trans hκ₂)
  have hfills := Block.fills_compileLoopBody hbody
  rw [hdepth] at hfills
  have hloops := hfills.allLoops hbodies
  unfold boundCode at hbefore
  split at hbefore
  · obtain ⟨hpair, -⟩ := pure_eq_ok.1 hbefore
    obtain ⟨rfl, rfl⟩ := Prod.mk.inj hpair
    exact .forLoop (hown κ.depth body _ hfills (.counting hkind (.inl ‹_›))) hloops
  · obtain ⟨e, κ₆, hassign, hpure⟩ := bind_eq_ok.1 hbefore
    obtain ⟨hpair, -⟩ := pure_eq_ok.1 hpure
    obtain ⟨rfl, rfl⟩ := Prod.mk.inj hpair
    exact .append .nil (.forLoop (hown κ.depth body _ hfills (.counting hkind (.inr rfl))) hloops)

theorem allLoops_compileRange (hkind : b.kind = .countRange) :
    Gives (AllLoops P) b.codeParts.compileRange := by
  intro κ code κ' h
  obtain ⟨name, κ₁, hname, h⟩ := bind_eq_ok.1 h
  obtain ⟨hvariable, rfl⟩ := Compilation.lift_eq_ok.1 hname
  obtain ⟨fromCode, κ₂, -, h⟩ := bind_eq_ok.1 h
  obtain ⟨toCode, κ₃, -, h⟩ := bind_eq_ok.1 h
  obtain ⟨byCode, κ₄, -, h⟩ := bind_eq_ok.1 h
  obtain ⟨_, κ₅, -, h⟩ := bind_eq_ok.1 h
  obtain ⟨_, κ₆, -, h⟩ := bind_eq_ok.1 h
  obtain ⟨_, κ₇, -, h⟩ := bind_eq_ok.1 h
  obtain ⟨_, κ₈, -, h⟩ := bind_eq_ok.1 h
  obtain ⟨body, κ₉, hbody, h⟩ := bind_eq_ok.1 h
  obtain ⟨rfl, -⟩ := pure_eq_ok.1 h
  have hfills := Block.fills_compileLoopBody hbody
  have hbecomes : b.Becomes κ₈.depth body (.ranging name body) :=
    .ranging hkind (Parts.field_eq_ok.1 hvariable)
  have hloop := AllLoops.forLoop (hown κ₈.depth body _ hfills hbecomes) (hfills.allLoops hbodies)
  show AllLoops P (rangeStart name fromCode toCode byCode ++ [(ForLoop.ranging name body).stmt])
  exact .append .nil hloop

theorem allLoops_kind :
    Gives (fun code : Code => AllLoops P code.body) (b.kind.compile b.codeParts) := by
  have hvalue : ∀ e : Expr, AllLoops P (Code.expression e).body := fun _ => .nil
  cases hkind : b.kind with
  | branch alwaysElse => exact (allLoops_compileBranch hbodies alwaysElse).bind fun _ h => .pure h
  | repeatTimes source =>
    exact (allLoops_compileRepeat hbodies hown hkind).bind fun _ h => .pure h
  | whileUntil =>
    refine .of_last fun mode => Gives.bind (Q := AllLoops P) ?_ fun _ h => .pure h
    refine .of_last fun _ => (allLoops_loopBody hbodies).bind fun body h => .pure ?_
    exact fun loop hloop => h loop (by simpa [bodyForLoops, Stmt.forLoops] using hloop)
  | countRange => exact (allLoops_compileRange hbodies hown hkind).bind fun _ h => .pure h
  | forEach =>
    refine Gives.bind (Q := AllLoops P) ?_ fun _ h => .pure h
    refine .of_last fun _ => .of_last fun _ => .of_last fun _ =>
      (allLoops_loopBody hbodies).bind fun body h => .pure ?_
    exact fun loop hloop => h loop (by simpa [bodyForLoops, Stmt.forLoops] using hloop)
  | flow =>
    refine Gives.bind (Q := AllLoops P) (.of_last fun escape => ?_) fun _ h => .pure h
    cases escape <;> exact .pure .nil
  | null | emptyList => exact .pure (hvalue _)
  | boolean | not | constant | constrain | change | text | append | textLength | textIsEmpty | get
  | set | listLength | listIsEmpty => exact .of_last fun _ => .pure (hvalue _)
  | number | function | round | property | modulo | join | changeCase | trim | createList
  | repeatItem => exact .of_last fun _ => .of_last fun _ => .pure (hvalue _)
  | compare | junction | ternary | arithmetic =>
    exact .of_last fun _ => .of_last fun _ => .of_last fun _ => .pure (hvalue _)

end

section

variable {P : ForLoop → Prop} {H : Block Kind → Prop}
  (hown : ∀ b : Block Kind, b.All H → ∀ depth body loop, b.Fills (depth + 1) body →
    b.Becomes depth body loop → P loop)

include hown

theorem allLoops_compileChain (chain : List (Block Kind)) (h : Block.AllOf H chain) :
    Gives (AllLoops P) (compileChain chain) := by
  revert h
  refine Block.chain_induction
    (P := fun b => b.All H → Gives (fun code : Code => AllLoops P code.body) b.compile)
    (Q := fun chain => Block.AllOf H chain → Gives (AllLoops P) (compileChain chain))
    ?_ ?_ ?_ chain
  · intro b _ hbodies hb
    rw [Block.compile_eq]
    exact allLoops_kind (fun s hs => hbodies s hs ((Block.all_iff.1 hb).2.2 s hs)) (hown b hb)
  · exact fun _ => .pure .nil
  · intro b rest hb hrest h
    exact (hb h.1).bind fun code hcode => (hrest h.2).bind fun body hbody =>
      .pure (hcode.append hbody)

theorem Workspace.allLoops_compile {w : Workspace Kind} {program : Program}
    (h : w.compile = .ok program) (hchains : ∀ chain ∈ w.chains, Block.AllOf H chain) :
    AllLoops P program.body := by
  obtain ⟨κ, hbody, -⟩ := compile_eq_ok h
  revert hchains
  suffices hgives : ∀ chains : List (List (Block Kind)), (∀ chain ∈ chains, Block.AllOf H chain) →
      Gives (AllLoops P) (compileChains chains) from
    fun hchains => hgives w.chains hchains _ _ _ hbody
  intro chains hchains
  induction chains with
  | nil => exact .pure .nil
  | cons chain rest ih =>
    rw [List.forall_mem_cons] at hchains
    refine (allLoops_compileChain hown chain hchains.1).bind fun body hbody => .of_last fun _ => ?_
    exact (ih hchains.2).bind fun others hothers => .pure (hbody.append hothers)

end

end Blockwork
