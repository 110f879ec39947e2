import Blockwork.Proofs.Compiler.Steps
import Blockwork.Proofs.Target.Identifiers
import Blockwork.Proofs.Target.Listing

/-! What programs call. Compiled code is well named, whatever it is compiled from: all its calls are
of helpers. The words that helpers begin with are reserved, so that no variable is written as one of
them. -/

namespace Blockwork

open Target

namespace Target

mutual

def Expr.calls : Expr → List String
  | .null | .boolean _ | .number _ | .text _ | .variable _ => []
  | .list items => itemsCalls items
  | .assign _ value => value.calls
  | .unary _ operand => operand.calls
  | .binary _ left right => left.calls ++ right.calls
  | .conditional condition thenExpr elseExpr =>
    condition.calls ++ (thenExpr.calls ++ elseExpr.calls)
  | .call function args => function :: itemsCalls args
  | .method receiver _ args => receiver.calls ++ itemsCalls args
  | .member object _ => object.calls

def itemsCalls : List Expr → List String
  | [] => []
  | e :: rest => e.calls ++ itemsCalls rest

end

mutual

def Stmt.calls : Stmt → List String
  | .expr e => e.calls
  | .branch condition body otherwise => condition.calls ++ (bodyCalls body ++ bodyCalls otherwise)
  | .whileLoop condition body => condition.calls ++ bodyCalls body
  | .forLoop start condition update body =>
    start.calls ++ (condition.calls ++ (update.calls ++ bodyCalls body))
  | .forEach _ sequence body => sequence.calls ++ bodyCalls body
  | .breaking | .continuing => []

def bodyCalls : List Stmt → List String
  | [] => []
  | s :: rest => s.calls ++ bodyCalls rest

end

def callHead (function : String) : String :=
  String.ofList (function.toList.takeWhile (· ≠ '.'))

/-! ### Heads of well-named calls -/

theorem callHead_mem_helpers {function : String} (h : IsFunction function) :
    callHead function ∈ helpers := by
  obtain ⟨head, hhead, names, -, rfl⟩ := h
  have hpoint : ∀ word ∈ helpers, '.' ∉ word.toList := by decide
  have hkept : ∀ c ∈ head.toList, decide (c ≠ '.') = true := fun c hc =>
    decide_eq_true fun heq => hpoint head hhead (heq ▸ hc)
  have hdotted : (dotted names).toList.takeWhile (· ≠ '.') = [] := by
    cases names with
    | nil => rfl
    | cons name names =>
      rw [dotted_cons]
      rfl
  rw [callHead, String.toList_append, List.takeWhile_append_of_pos hkept, hdotted, List.append_nil,
    String.ofList_toList]
  exact hhead

theorem helpers_subset_reserved : helpers ⊆ reserved := by decide

mutual

theorem Expr.isFunction_calls : ∀ e : Expr, e.WellNamed → ∀ f ∈ e.calls, IsFunction f
  | .null, _ | .boolean _, _ | .number _, _ | .text _, _ | .variable _, _ =>
    fun _ hf => absurd hf List.not_mem_nil
  | .list items, h => isFunction_itemsCalls items h
  | .assign _ value, h => value.isFunction_calls h
  | .unary _ operand, h => operand.isFunction_calls h
  | .binary _ left right, h =>
    List.forall_mem_append.2 ⟨left.isFunction_calls h.1, right.isFunction_calls h.2⟩
  | .conditional condition thenExpr elseExpr, h =>
    List.forall_mem_append.2 ⟨condition.isFunction_calls h.1, List.forall_mem_append.2
      ⟨thenExpr.isFunction_calls h.2.1, elseExpr.isFunction_calls h.2.2⟩⟩
  | .call _ args, h => List.forall_mem_cons.2 ⟨h.1, isFunction_itemsCalls args h.2⟩
  | .method receiver _ args, h =>
    List.forall_mem_append.2 ⟨receiver.isFunction_calls h.1, isFunction_itemsCalls args h.2.2⟩
  | .member object _, h => object.isFunction_calls h.1

theorem isFunction_itemsCalls : ∀ es : List Expr, Expr.AllWellNamed es →
    ∀ f ∈ itemsCalls es, IsFunction f
  | [], _ => fun _ hf => absurd hf List.not_mem_nil
  | e :: rest, h =>
    List.forall_mem_append.2 ⟨e.isFunction_calls h.1, isFunction_itemsCalls rest h.2⟩

end

mutual

theorem Stmt.isFunction_calls : ∀ s : Stmt, s.WellNamed → ∀ f ∈ s.calls, IsFunction f
  | .expr e, h => e.isFunction_calls h
  | .branch condition body otherwise, h =>
    List.forall_mem_append.2 ⟨condition.isFunction_calls h.1, List.forall_mem_append.2
      ⟨isFunction_bodyCalls body h.2.1, isFunction_bodyCalls otherwise h.2.2⟩⟩
  | .whileLoop condition body, h =>
    List.forall_mem_append.2 ⟨condition.isFunction_calls h.1, isFunction_bodyCalls body h.2⟩
  | .forLoop start condition update body, h =>
    List.forall_mem_append.2 ⟨start.isFunction_calls h.1, List.forall_mem_append.2
      ⟨condition.isFunction_calls h.2.1, List.forall_mem_append.2
        ⟨update.isFunction_calls h.2.2.1, isFunction_bodyCalls body h.2.2.2⟩⟩⟩
  | .forEach _ sequence body, h =>
    List.forall_mem_append.2 ⟨sequence.isFunction_calls h.1, isFunction_bodyCalls body h.2⟩
  | .breaking, _ | .continuing, _ => fun _ hf => absurd hf List.not_mem_nil

theorem isFunction_bodyCalls : ∀ body : List Stmt, BodyWellNamed body →
    ∀ f ∈ bodyCalls body, IsFunction f
  | [], _ => fun _ hf => absurd hf List.not_mem_nil
  | s :: rest, h =>
    List.forall_mem_append.2 ⟨s.isFunction_calls h.1, isFunction_bodyCalls rest h.2⟩

end

/-! ### Well-named pieces -/

theorem isFunction_of_helper {f : String} (h : f ∈ helpers) : IsFunction f :=
  ⟨f, h, [], fun _ hname => absurd hname List.not_mem_nil, String.append_empty.symm⟩

theorem isFunction_math (name : String) (h : isWord name = true) : IsFunction ("Math." ++ name) :=
  ⟨"Math", by decide, [name], List.forall_mem_singleton.2 h, by
    simp [dotted, String.join, ← String.append_assoc]⟩

theorem wellNamed_toText {e : Expr} (h : e.WellNamed) : e.toText.WellNamed :=
  ⟨isFunction_of_helper (by decide), h, trivial⟩

theorem wellNamed_joinCode {es : List Expr} (h : Expr.AllWellNamed es) :
    (joinCode es).WellNamed := by
  -- The sum grows from the left, so the induction is over what is still to be added to any of them.
  have hfoldl : ∀ (rest : List Expr) (e : Expr), Expr.AllWellNamed rest → e.WellNamed →
      (rest.foldl (.binary .add) e).WellNamed := by
    intro rest
    induction rest with
    | nil => exact fun _ _ he => he
    | cons next rest ih => exact fun e hrest he => ih _ hrest.2 ⟨he, hrest.1⟩
  cases es with
  | nil => trivial
  | cons e rest => exact hfoldl rest e h.2 h.1

theorem bodyWellNamed_append {body rest : List Stmt} (h : BodyWellNamed body)
    (hrest : BodyWellNamed rest) : BodyWellNamed (body ++ rest) := by
  induction body with
  | nil => exact hrest
  | cons s body ih => exact ⟨h.1, ih h.2⟩

theorem bodyWellNamed_arms {arms : List (Expr × List Stmt)} {last : List Stmt}
    (h : ∀ arm ∈ arms, arm.1.WellNamed ∧ BodyWellNamed arm.2) (hlast : BodyWellNamed last) :
    BodyWellNamed (arms.foldr
      (fun (condition, body) otherwise => [.branch condition body otherwise]) last) := by
  induction arms with
  | nil => exact hlast
  | cons arm arms ih =>
    rw [List.forall_mem_cons] at h
    exact ⟨⟨h.1.1, h.1.2, ih h.2⟩, trivial⟩

end Target

def Code.WellNamed (code : Code) : Prop := BodyWellNamed code.body

/-! ### Slots -/

section

variable {α β : Type} {p : Parts SlotCode}
  (hv : ∀ e ∈ p.values, Gives Expr.WellNamed e.2.meaning.expression)
  (hs : ∀ e ∈ p.statements, Gives BodyWellNamed e.2.meaning.statements)

theorem wellNamed_assign (name : String) {e : Expr} (h : e.WellNamed) :
    Gives Expr.WellNamed (Compilation.assign name e) :=
  .of_last fun _ => .pure h

section

include hv

theorem wellNamed_compile (name : String) : Gives Expr.WellNamed (p.compile name) := by
  unfold Parts.compile Parts.value
  cases hlookup : p.values.lookup name with
  | none => exact .fail _
  | some plug => exact hv _ (mem_of_lookup hlookup)

theorem wellNamed_compileText (name : String) : Gives Expr.WellNamed (p.compileText name) :=
  (wellNamed_compile hv name).bind fun _ h => .pure (wellNamed_toText h)

theorem wellNamed_compileFilled (slots : List String) :
    Gives Expr.AllWellNamed (p.compileFilled slots) := by
  induction slots with
  | nil => exact .pure trivial
  | cons name rest ih =>
    unfold Parts.compileFilled Parts.value
    cases hlookup : p.values.lookup name with
    | none => exact .fail _
    | some plug =>
      show Gives Expr.AllWellNamed (if plug.filled = true then _ else _)
      refine .ite ?_ ih
      exact (hv _ (mem_of_lookup hlookup)).bind fun e he => ih.bind fun es hes =>
        .pure ⟨wellNamed_toText he, hes⟩

theorem wellNamed_mapM (slots : List Nat) (name : Nat → String) :
    Gives Expr.AllWellNamed (slots.mapM fun i => p.compile (name i)) := by
  induction slots with
  | nil => exact .pure trivial
  | cons i rest ih =>
    rw [List.mapM_cons]
    exact (wellNamed_compile hv _).bind fun e he => ih.bind fun es hes => .pure ⟨he, hes⟩

theorem wellNamed_compileProperty (property : Property) :
    Gives Expr.WellNamed (p.compileProperty property) := by
  refine (wellNamed_compile hv _).bind fun e he => ?_
  cases property with
  | prime => exact .fail _
  | divisible => exact (wellNamed_compile hv _).bind fun divisor hd => .pure ⟨⟨he, hd⟩, trivial⟩
  | even | odd | whole => exact .pure ⟨⟨he, trivial⟩, trivial⟩
  | positive | negative => exact .pure ⟨he, trivial⟩

theorem wellNamed_compileConstrain : Gives Expr.WellNamed p.compileConstrain := by
  refine (wellNamed_compile hv _).bind fun value hvalue => ?_
  refine (wellNamed_compile hv _).bind fun low hlow => ?_
  refine (wellNamed_compile hv _).bind fun high hhigh => .pure ?_
  have hmax : Expr.WellNamed (.call "Math.max" [value, low]) :=
    ⟨isFunction_math "max" (by decide), hvalue, hlow, trivial⟩
  exact ⟨isFunction_math "min" (by decide), hmax, hhigh, trivial⟩

theorem wellNamed_compileChange : Gives Expr.WellNamed p.compileChange :=
  .of_last fun name => (wellNamed_compile hv _).bind fun _ hdelta =>
    wellNamed_assign name ⟨⟨⟨trivial, trivial⟩, trivial, trivial⟩, hdelta⟩

theorem wellNamed_compileAppend : Gives Expr.WellNamed p.compileAppend :=
  .of_last fun name => (wellNamed_compileText hv _).bind fun _ hsuffix =>
    wellNamed_assign name ⟨wellNamed_toText ⟨trivial, trivial⟩, hsuffix⟩

theorem wellNamed_compileSet : Gives Expr.WellNamed p.compileSet :=
  .of_last fun name => (wellNamed_compile hv _).bind fun _ h => wellNamed_assign name h

theorem wellNamed_countCode (source : CountSource) : Gives Expr.WellNamed (p.countCode source) := by
  cases source with
  | input => exact wellNamed_compile hv _
  | field => exact .of_last fun _ => .of_last fun _ => .pure trivial

end

/-! ### Branches and loops -/

section

include hs

theorem wellNamed_compileBody (name : String) : Gives BodyWellNamed (p.compileBody name) := by
  unfold Parts.compileBody
  split
  · exact .pure trivial
  · exact hs _ (mem_of_lookup ‹_›)

theorem wellNamed_branchBody (name : String) :
    Gives BodyWellNamed (Traversal.inBranch (p.compileBody name)) :=
  (wellNamed_compileBody hs name).inBranch

theorem wellNamed_compileLoopBody : Gives BodyWellNamed p.compileLoopBody :=
  (wellNamed_compileBody hs "DO").inLoop

end

include hv hs

theorem wellNamed_compileArms (arms : List Nat) :
    Gives (fun arms : List (Expr × List Stmt) =>
      ∀ arm ∈ arms, arm.1.WellNamed ∧ BodyWellNamed arm.2) (p.compileArms arms) := by
  induction arms with
  | nil => exact .pure fun _ h => absurd h List.not_mem_nil
  | cons i rest ih =>
    refine (wellNamed_compile hv _).bind fun condition hcondition => ?_
    refine (wellNamed_branchBody hs _).bind fun body hbody => ih.bind fun arms harms => .pure ?_
    exact List.forall_mem_cons.2 ⟨⟨hcondition, hbody⟩, harms⟩

theorem wellNamed_compileBranch (alwaysElse : Bool) :
    Gives BodyWellNamed (p.compileBranch alwaysElse) := by
  refine .of_last fun _ => (wellNamed_compileArms hv hs _).bind fun arms harms => ?_
  split
  · exact (wellNamed_branchBody hs _).bind fun last hlast => .pure (bodyWellNamed_arms harms hlast)
  · exact .pure (bodyWellNamed_arms harms trivial)

omit hv hs in
theorem wellNamed_boundCode (name : String) {times : Expr} (h : times.WellNamed) :
    Gives (fun code : List Stmt × Expr => BodyWellNamed code.1 ∧ code.2.WellNamed)
      (boundCode name times) :=
  .ite (.pure ⟨trivial, h⟩)
    ((wellNamed_assign name h).bind fun _ he => .pure ⟨⟨he, trivial⟩, trivial⟩)

theorem wellNamed_compileRepeat (source : CountSource) :
    Gives BodyWellNamed (p.compileRepeat source) := by
  rw [compileRepeat_eq]
  refine .of_last fun κ => (wellNamed_countCode hv source).bind fun times htimes => ?_
  refine (wellNamed_boundCode _ htimes).bind fun code hcode => .of_last fun _ => ?_
  refine (wellNamed_compileLoopBody hs).bind fun body hbody => .pure ?_
  have hloop : (countingLoop (Parts.counterName κ.depth) code.2 body).WellNamed :=
    ⟨trivial, ⟨trivial, hcode.2⟩, ⟨trivial, trivial⟩, hbody⟩
  exact bodyWellNamed_append hcode.1 ⟨hloop, trivial⟩

theorem wellNamed_compileWhileUntil (mode : LoopMode) :
    Gives BodyWellNamed (p.compileWhileUntil mode) := by
  refine (wellNamed_compile hv _).bind fun condition hcondition => ?_
  refine (wellNamed_compileLoopBody hs).bind fun body hbody => .pure ⟨⟨?_, hbody⟩, trivial⟩
  cases mode <;> exact hcondition

theorem wellNamed_compileRange : Gives BodyWellNamed p.compileRange := by
  refine .of_last fun name => (wellNamed_compile hv _).bind fun first hfirst => ?_
  refine (wellNamed_compile hv _).bind fun last hlast => ?_
  refine (wellNamed_compile hv _).bind fun step hstep => ?_
  refine .of_last fun _ => .of_last fun _ => .of_last fun _ => .of_last fun _ => ?_
  refine (wellNamed_compileLoopBody hs).bind fun body hbody => .pure ?_
  have habs : Expr.WellNamed (.call "Math.abs" [step]) :=
    ⟨isFunction_math "abs" (by decide), hstep, trivial⟩
  have hturn : Expr.WellNamed (.unary .negate (.variable (name ++ "_inc"))) := trivial
  refine ⟨hfirst, hlast, habs, ⟨⟨trivial, trivial⟩, ⟨hturn, trivial⟩, trivial⟩, ?_, trivial⟩
  have hcondition : Expr.WellNamed (.conditional
      (.binary .greaterOrEqual (.variable (name ++ "_inc")) (.num 0))
      (.binary .lessOrEqual (.variable name) (.variable (name ++ "_end")))
      (.binary .greaterOrEqual (.variable name) (.variable (name ++ "_end")))) :=
    ⟨⟨trivial, trivial⟩, ⟨trivial, trivial⟩, trivial, trivial⟩
  exact ⟨trivial, hcondition, ⟨trivial, trivial⟩, hbody⟩

theorem wellNamed_compileForEach : Gives BodyWellNamed p.compileForEach :=
  .of_last fun _ => (wellNamed_compile hv _).bind fun _ hsequence => .of_last fun _ =>
    (wellNamed_compileLoopBody hs).bind fun _ hbody => .pure ⟨⟨hsequence, hbody⟩, trivial⟩

omit hv hs in
theorem wellNamed_compileFlow : Gives BodyWellNamed p.compileFlow := by
  refine .of_last fun escape => ?_
  cases escape <;> exact .pure (by simp [BodyWellNamed, Stmt.WellNamed])

section

omit hv hs

theorem wellNamed_expression {d : Compilation Expr} (hd : Gives Expr.WellNamed d) :
    Gives Code.WellNamed (Code.expression <$> d) :=
  hd.bind fun _ h => .pure ⟨h, trivial⟩

theorem wellNamed_statements {d : Compilation (List Stmt)} (hd : Gives BodyWellNamed d) :
    Gives Code.WellNamed (Code.statements <$> d) :=
  hd.bind fun _ h => .pure h

theorem wellNamed_pure {e : Expr} (h : e.WellNamed) :
    Gives Code.WellNamed (pure (Code.expression e) : Compilation Code) :=
  .pure ⟨h, trivial⟩

end

section

omit hs

theorem wellNamed_one (f : Expr → Expr) (slot : String) (hf : ∀ e, e.WellNamed → (f e).WellNamed) :
    Gives Code.WellNamed (do return Code.expression (f (← p.compile slot))) :=
  (wellNamed_compile hv slot).bind fun e h => wellNamed_pure (hf e h)

theorem wellNamed_oneText (f : Expr → Expr) (slot : String)
    (hf : ∀ e, e.WellNamed → (f e).WellNamed) :
    Gives Code.WellNamed (do return Code.expression (f (← p.compileText slot))) :=
  (wellNamed_compileText hv slot).bind fun e h => wellNamed_pure (hf e h)

theorem wellNamed_two (f : Expr → Expr → Expr) (first second : String)
    (hf : ∀ l r, l.WellNamed → r.WellNamed → (f l r).WellNamed) :
    Gives Code.WellNamed (do
      let l ← p.compile first
      let r ← p.compile second
      return Code.expression (f l r)) :=
  (wellNamed_compile hv first).bind fun l hl => (wellNamed_compile hv second).bind fun r hr =>
    wellNamed_pure (hf l r hl hr)

end

theorem Kind.wellNamed (k : Kind) : Gives Code.WellNamed (k.compile p) := by
  cases k with
  | branch alwaysElse => exact wellNamed_statements (wellNamed_compileBranch hv hs alwaysElse)
  | repeatTimes source => exact wellNamed_statements (wellNamed_compileRepeat hv hs source)
  | whileUntil =>
    exact .of_last fun mode => wellNamed_statements (wellNamed_compileWhileUntil hv hs mode)
  | countRange => exact wellNamed_statements (wellNamed_compileRange hv hs)
  | forEach => exact wellNamed_statements (wellNamed_compileForEach hv hs)
  | flow => exact wellNamed_statements wellNamed_compileFlow
  | null | emptyList => exact wellNamed_pure trivial
  | boolean | constant | text | get => exact .of_last fun _ => wellNamed_pure trivial
  | number => exact .of_last fun _ => .of_last fun _ => wellNamed_pure trivial
  | not => exact wellNamed_one hv _ _ fun _ h => h
  | compare | junction | arithmetic =>
    exact .of_last fun _ => wellNamed_two hv _ _ _ fun _ _ hl hr => ⟨hl, hr⟩
  | modulo => exact wellNamed_two hv _ _ _ fun _ _ hl hr => ⟨hl, hr⟩
  | repeatItem =>
    exact wellNamed_two hv _ _ _ fun _ _ hl hr => ⟨isFunction_of_helper (by decide), hl, hr, trivial⟩
  | ternary =>
    exact (wellNamed_compile hv _).bind fun _ hcondition =>
      (wellNamed_compile hv _).bind fun _ hl => (wellNamed_compile hv _).bind fun _ hr =>
        wellNamed_pure ⟨hcondition, hl, hr⟩
  | function =>
    refine .of_last fun function => wellNamed_one hv _ _ fun e h => ?_
    have hcall : ∀ name, isWord name = true → Expr.WellNamed (.call ("Math." ++ name) [e]) :=
      fun name hname => ⟨isFunction_math name hname, h, trivial⟩
    cases function with
    | negate => exact h
    | powerOfTen => exact ⟨trivial, h⟩
    | root => exact hcall "sqrt" (by decide)
    | absolute => exact hcall "abs" (by decide)
    | naturalLog => exact hcall "log" (by decide)
    | decimalLog => exact hcall "log10" (by decide)
    | exponential => exact hcall "exp" (by decide)
  | round =>
    refine .of_last fun rounding => wellNamed_one hv _ _ fun e h => ⟨?_, h, trivial⟩
    cases rounding with
    | nearest => exact isFunction_math "round" (by decide)
    | up => exact isFunction_math "ceil" (by decide)
    | down => exact isFunction_math "floor" (by decide)
  | property =>
    exact .of_last fun property => wellNamed_expression (wellNamed_compileProperty hv property)
  | constrain => exact wellNamed_expression (wellNamed_compileConstrain hv)
  | change => exact wellNamed_expression (wellNamed_compileChange hv)
  | append => exact wellNamed_expression (wellNamed_compileAppend hv)
  | set => exact wellNamed_expression (wellNamed_compileSet hv)
  | join =>
    exact .of_last fun count => (wellNamed_compileFilled hv _).bind fun _ h =>
      wellNamed_pure (wellNamed_joinCode h)
  | textLength => exact wellNamed_oneText hv _ _ fun _ h => ⟨h, by decide⟩
  | textIsEmpty => exact wellNamed_oneText hv _ _ fun _ h => ⟨⟨h, by decide⟩, trivial⟩
  | changeCase =>
    refine .of_last fun letterCase => wellNamed_oneText hv _ _ fun e h => ?_
    cases letterCase with
    | upper => exact ⟨h, by decide, trivial⟩
    | lower => exact ⟨h, by decide, trivial⟩
    | title => exact ⟨isFunction_of_helper (by decide), h, trivial⟩
  | trim =>
    refine .of_last fun side => wellNamed_oneText hv _ _ fun e h => ⟨h, ?_, trivial⟩
    cases side <;> decide
  | createList => exact .of_last fun count => (wellNamed_mapM hv _ _).bind fun _ h => wellNamed_pure h
  | listLength => exact wellNamed_one hv _ _ fun _ h => ⟨h, by decide⟩
  | listIsEmpty => exact wellNamed_one hv _ _ fun _ h => ⟨⟨h, by decide⟩, trivial⟩

end

/-! ### Chains and workspaces -/

theorem wellNamed_compileChain (chain : List (Block Kind)) :
    Gives Expr.WellNamed (compileExpression chain) ∧ Gives BodyWellNamed (compileChain chain) := by
  refine Block.chain_induction (P := fun b => Gives Code.WellNamed b.compile)
    (Q := fun chain => Gives Expr.WellNamed (compileExpression chain) ∧
      Gives BodyWellNamed (compileChain chain)) ?_ ?_ ?_ chain
  · intro b hvalues hbodies
    rw [Block.compile_eq]
    refine Kind.wellNamed ?_ ?_ b.kind
    · rw [Block.values_codeParts, List.forall_mem_map]
      exact fun s hs => (hvalues s hs).1
    · rw [Block.statements_codeParts, List.forall_mem_map]
      exact fun s hs => (hbodies s hs).2
  · exact ⟨.pure trivial, .pure trivial⟩
  · intro b rest hb hrest
    refine ⟨hb.bind fun code hcode => ?_, hb.bind fun code hcode => hrest.2.bind fun body hbody =>
      .pure (bodyWellNamed_append hcode hbody)⟩
    cases code with
    | expression e => exact .pure hcode.1
    | statements body => exact .fail _

namespace Workspace

theorem wellNamed_compileChains (chains : List (List (Block Kind))) :
    Gives BodyWellNamed (compileChains chains) := by
  induction chains with
  | nil => exact .pure trivial
  | cons chain rest ih =>
    exact (wellNamed_compileChain chain).2.bind fun body hbody => .of_last fun _ =>
      ih.bind fun others hothers => .pure (bodyWellNamed_append hbody hothers)

theorem compile_wellNamed {w : Workspace Kind} {program : Program} (h : w.compile = .ok program) :
    BodyWellNamed program.body := by
  obtain ⟨κ, hbody, -⟩ := compile_eq_ok h
  exact wellNamed_compileChains w.chains {} program.body κ hbody

/-- Names of variables are written apart from each other and as free names. What a program calls
begins with a name that is not free, so that no variable hides it. -/
theorem identifiers_hide_no_helper : Function.Injective identifier ∧
    (∀ name, IsFreeName (identifier name)) ∧
    ∀ (w : Workspace Kind) (program : Program), w.compile = .ok program →
      ∀ f ∈ bodyCalls program.body,
        callHead f ∈ reserved ∧ ∀ name, identifier name ≠ callHead f := by
  refine ⟨identifier_injective, isFreeName_identifier, fun w program hcompile f hf => ?_⟩
  have hreserved : callHead f ∈ reserved := helpers_subset_reserved
    (callHead_mem_helpers (isFunction_bodyCalls _ (compile_wellNamed hcompile) f hf))
  exact ⟨hreserved, fun name heq => (isFreeName_identifier name).free (heq ▸ hreserved)⟩

def helperNames : Workspace Kind :=
  let item : Block Kind := ⟨.get, "variables_get", "g", [("VAR", "Math")], [], [], [], []⟩
  let absolute : Block Kind :=
    ⟨.function, "math_single", "a", [("OP", "ABS")], [⟨"NUM", [item]⟩], [], [], []⟩
  ⟨[[⟨.set, "variables_set", "s", [("VAR", "Math")], [⟨"VALUE", [absolute]⟩], [], [], []⟩,
    ⟨.append, "text_append", "t", [("VAR", "Math")], [⟨"TEXT", [item]⟩], [], [], []⟩]]⟩

theorem helperNames_hide_no_helper : ∃ program, helperNames.compile = .ok program ∧
    program.declared.map identifier = ["$Math"] ∧
    bodyCalls program.body = ["Math.abs", "String", "String"] ∧
    ∀ f ∈ bodyCalls program.body, callHead f ∈ reserved ∧ ∀ name, identifier name ≠ callHead f := by
  have hprogram : (helperNames.compile.toOption.map fun program =>
      (program.declared.map identifier, bodyCalls program.body)) =
        some (["$Math"], ["Math.abs", "String", "String"]) := by decide +kernel
  cases hcompile : helperNames.compile with
  | error failure =>
    rw [hcompile] at hprogram
    exact absurd hprogram (by simp [Except.toOption])
  | ok program =>
    rw [hcompile] at hprogram
    obtain ⟨hdeclared, hcalls⟩ := Prod.mk.inj (Option.some.inj hprogram)
    exact ⟨program, rfl, hdeclared, hcalls, identifiers_hide_no_helper.2.2 _ _ hcompile⟩

end Workspace
end Blockwork
