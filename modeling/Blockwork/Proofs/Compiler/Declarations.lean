import Blockwork.Proofs.Compiler.Parity

/-! What a program declares. Compilation binds names in the root as it goes, apart from the trees that
it returns; at its end the root has just the names that the program assigns, in expressions at any
depth or as the variable of a loop over a list. -/

namespace Blockwork

open Target

namespace Target

mutual

def Expr.assigned : Expr → List String
  | .null | .boolean _ | .number _ | .text _ | .variable _ => []
  | .list items => itemsAssigned items
  | .assign name value => name :: value.assigned
  | .unary _ operand => operand.assigned
  | .binary _ left right => left.assigned ++ right.assigned
  | .conditional condition thenExpr elseExpr =>
    condition.assigned ++ (thenExpr.assigned ++ elseExpr.assigned)
  | .call _ args => itemsAssigned args
  | .method receiver _ args => receiver.assigned ++ itemsAssigned args
  | .member object _ => object.assigned

def itemsAssigned : List Expr → List String
  | [] => []
  | e :: rest => e.assigned ++ itemsAssigned rest

end

mutual

/-- The variables that are assigned in the statement, those of its loops over lists among them. -/
def Stmt.assigned : Stmt → List String
  | .expr e => e.assigned
  | .branch condition body otherwise =>
    condition.assigned ++ (bodyAssigned body ++ bodyAssigned otherwise)
  | .whileLoop condition body => condition.assigned ++ bodyAssigned body
  | .forLoop start condition update body =>
    start.assigned ++ (condition.assigned ++ (update.assigned ++ bodyAssigned body))
  | .forEach name sequence body => name :: (sequence.assigned ++ bodyAssigned body)
  | .breaking | .continuing => []

def bodyAssigned : List Stmt → List String
  | [] => []
  | s :: rest => s.assigned ++ bodyAssigned rest

end

theorem bodyAssigned_append (body rest : List Stmt) :
    bodyAssigned (body ++ rest) = bodyAssigned body ++ bodyAssigned rest := by
  induction body with
  | nil => rfl
  | cons s body ih => rw [List.cons_append, bodyAssigned, ih, bodyAssigned, List.append_assoc]

def armsAssigned : List (Expr × List Stmt) → List String
  | [] => []
  | (condition, body) :: rest => condition.assigned ++ (bodyAssigned body ++ armsAssigned rest)

theorem bodyAssigned_arms (arms : List (Expr × List Stmt)) (last : List Stmt) :
    bodyAssigned (arms.foldr
      (fun (condition, body) otherwise => [.branch condition body otherwise]) last) =
        armsAssigned arms ++ bodyAssigned last := by
  induction arms with
  | nil => rfl
  | cons arm rest ih =>
    simp only [List.foldr_cons, bodyAssigned, Stmt.assigned, ih, armsAssigned, List.append_nil,
      List.append_assoc]

theorem assigned_toText (e : Expr) : e.toText.assigned = e.assigned := List.append_nil _

theorem assigned_joinCode (es : List Expr) : (joinCode es).assigned = itemsAssigned es := by
  have hfoldl : ∀ (rest : List Expr) (e : Expr),
      (rest.foldl (.binary .add) e).assigned = e.assigned ++ itemsAssigned rest := by
    intro rest
    induction rest with
    | nil => exact fun e => (List.append_nil _).symm
    | cons next rest ih =>
      intro e
      rw [List.foldl_cons, ih, Expr.assigned, itemsAssigned, List.append_assoc]
  cases es with
  | nil => rfl
  | cons e rest => exact hfoldl rest e

end Target

def Code.assigned (code : Code) : List String := bodyAssigned code.body

theorem assigned_expression (e : Expr) : (Code.expression e).assigned = e.assigned :=
  List.append_nil _

/-! ### The names of the root -/

structure Context.Binds {V : Type} (names : List String) (c : Context V) : Prop where
  nodup : c.root.bindings.names.Nodup
  mem_iff : ∀ name, name ∈ c.root.bindings.names ↔ name ∈ names

namespace Context.Binds

variable {V : Type} {names names' : List String} {c : Context V}

theorem congr (h : c.Binds names) (hnames : ∀ name, name ∈ names ↔ name ∈ names') :
    c.Binds names' :=
  ⟨h.nodup, fun name => (h.mem_iff name).trans (hnames name)⟩

theorem declare (h : c.Binds names) (name : String) (v : V) :
    (c.declare name v).Binds (names ++ [name]) where
  nodup := Entries.nodup_names_put h.nodup name v
  mem_iff other := by
    rw [Context.declare, Entries.names_put, List.mem_append, List.mem_singleton]
    split
    · rw [h.mem_iff]
      exact ⟨.inl, fun hother => hother.elim id fun heq => heq ▸ (h.mem_iff name).1 ‹_›⟩
    · rw [List.mem_append, List.mem_singleton, h.mem_iff]

theorem setEscape (h : c.Binds names) (e : Escape) : (c.setEscape e).Binds names := by
  obtain ⟨_ | ⟨scope, rest⟩, root⟩ := c <;> exact ⟨h.nodup, h.mem_iff⟩

theorem push (h : c.Binds names) : c.push.Binds names := ⟨h.nodup, h.mem_iff⟩

theorem pop (h : c.Binds names) : c.pop.Binds names := ⟨h.nodup, h.mem_iff⟩

theorem closeBranch (h : c.Binds names) : c.closeBranch.Binds names := by
  unfold Context.closeBranch
  split
  · exact h.pop
  · exact h.pop.setEscape _

end Context.Binds

variable {α β : Type}

/-- Beside names that are there already, the root has those in `seen` before the work, and the names
of its result after it. -/
def Declares (seen : List String) (names : α → List String) (d : Compilation α) : Prop :=
  ∀ others κ a κ', outcome d κ = (.ok a, κ') → κ.Binds (others ++ seen) →
    κ'.Binds (others ++ names a)

namespace Declares

variable {seen : List String} {names : α → List String} {names' : β → List String}

theorem pure {a : α} (h : ∀ name, name ∈ names a ↔ name ∈ seen) :
    Declares seen names (Pure.pure a) := by
  intro others κ b κ' hb hκ
  obtain ⟨rfl, rfl⟩ := pure_eq_ok.1 hb
  exact hκ.congr fun name => by rw [List.mem_append, List.mem_append, h]

theorem fail (e : EngineError) : Declares seen names (throw e) :=
  fun _ _ _ _ h => (throw_eq_ok.1 h).elim

theorem bind {d : Compilation α} {f : α → Compilation β} (h : Declares seen names d)
    (hf : ∀ a, Declares (names a) names' (f a)) : Declares seen names' (d >>= f) := by
  intro others κ b κ' hb hκ
  obtain ⟨a, κ₁, ha, hb⟩ := bind_eq_ok.1 hb
  exact hf a others κ₁ b κ' hb (h others κ a κ₁ ha hκ)

theorem frame {d : Compilation α} (h : Declares [] names d) (seen : List String) :
    Declares seen (fun a => seen ++ names a) d := by
  intro others κ a κ' ha hκ
  rw [← List.append_assoc]
  exact h (others ++ seen) κ a κ' ha (by rwa [List.append_nil])

theorem silent {x : Compilation α} {f : α → Compilation β}
    (hx : ∀ κ a κ', outcome x κ = (.ok a, κ') → κ' = κ)
    (hf : ∀ a, Declares seen names' (f a)) : Declares seen names' (x >>= f) := by
  intro others κ b κ' hb hκ
  obtain ⟨a, κ₁, ha, hb⟩ := bind_eq_ok.1 hb
  rw [hx κ a κ₁ ha] at hb
  exact hf a others κ b κ' hb hκ

theorem lift (x : Except EngineError α) {f : α → Compilation β}
    (hf : ∀ a, Declares seen names' (f a)) : Declares seen names' (liftM x >>= f) :=
  silent (fun _ _ _ ha => (Compilation.lift_eq_ok.1 ha).2.symm) hf

theorem declare (name : String) (e : Expr) :
    Declares seen (fun _ => seen ++ [name]) (Compilation.declare name e) := by
  intro others κ a κ' ha hκ
  obtain ⟨-, rfl⟩ := Prod.mk.inj ha
  rw [← List.append_assoc]
  exact hκ.declare name e

theorem assign (name : String) (e : Expr) :
    Declares e.assigned Expr.assigned (Compilation.assign name e) :=
  (declare name e).bind fun _ => .pure fun other => by
    simp [Expr.assigned, or_comm]

theorem takeEscape {f : Escape → Compilation β} (hf : ∀ e, Declares seen names' (f e)) :
    Declares seen names' (Traversal.takeEscape >>= f) := by
  intro others κ b κ' hb hκ
  rw [outcome_bind, Traversal.outcome_takeEscape] at hb
  exact hf _ others _ b κ' hb (hκ.setEscape .none)

theorem inBranch {d : Compilation α} (h : Declares seen names d) :
    Declares seen names (Traversal.inBranch d) := by
  intro others κ a κ' ha hκ
  obtain ⟨κ₁, hd, rfl⟩ := Traversal.inBranch_eq_ok ha
  exact (h others κ.push a κ₁ hd hκ.push).closeBranch

theorem inLoop {d : Compilation α} (h : Declares seen names d) :
    Declares seen names (Traversal.inLoop d) := by
  intro others κ a κ' ha hκ
  obtain ⟨κ₁, hd, rfl⟩ := Traversal.inLoop_eq_ok ha
  exact (h others κ.push a κ₁ hd hκ.push).pop

theorem mapM {f : α → Compilation Expr}
    (h : ∀ a seen, Declares seen (fun e => seen ++ e.assigned) (f a)) (as : List α)
    (seen : List String) :
    Declares seen (fun es => seen ++ itemsAssigned es) (as.mapM f) := by
  induction as generalizing seen with
  | nil => exact .pure fun name => by simp [itemsAssigned]
  | cons a rest ih =>
    rw [List.mapM_cons]
    refine (h a seen).bind fun e => (ih _).bind fun es => .pure fun name => ?_
    rw [itemsAssigned, List.append_assoc]

end Declares

/-! ### Slots -/

section

variable {p : Parts SlotCode}
  (hv : ∀ e ∈ p.values, Declares [] Expr.assigned e.2.meaning.expression)
  (hs : ∀ e ∈ p.statements, Declares [] bodyAssigned e.2.meaning.statements)

section

include hv

theorem declares_compile (name : String) (seen : List String) :
    Declares seen (fun e => seen ++ e.assigned) (p.compile name) := by
  unfold Parts.compile Parts.value
  cases hlookup : p.values.lookup name with
  | none => exact .fail _
  | some plug => exact (hv _ (mem_of_lookup hlookup)).frame seen

theorem declares_compileText (name : String) (seen : List String) :
    Declares seen (fun e => seen ++ e.assigned) (p.compileText name) :=
  (declares_compile hv name seen).bind fun e => .pure fun other => by rw [assigned_toText]

theorem declares_compileFilled (slots : List String) :
    Declares [] itemsAssigned (p.compileFilled slots) := by
  induction slots with
  | nil => exact .pure fun _ => .rfl
  | cons name rest ih =>
    unfold Parts.compileFilled Parts.value
    cases hlookup : p.values.lookup name with
    | none => exact .fail _
    | some plug =>
      show Declares [] itemsAssigned (if plug.filled = true then _ else _)
      split
      · refine (hv _ (mem_of_lookup hlookup)).bind fun e => (ih.frame _).bind fun es => ?_
        exact .pure fun other => by rw [itemsAssigned, assigned_toText]
      · exact ih

theorem declares_compileProperty (property : Property) :
    Declares [] Expr.assigned (p.compileProperty property) := by
  refine (declares_compile hv _ []).bind fun e => ?_
  cases property with
  | prime => exact .fail _
  | divisible =>
    exact (declares_compile hv _ _).bind fun divisor => .pure fun name => by
      simp [remainderIs, Expr.num, Expr.assigned]
  | _ => exact .pure fun name => by simp [remainderIs, Expr.num, Expr.assigned]

theorem declares_compileConstrain : Declares [] Expr.assigned p.compileConstrain :=
  (declares_compile hv _ []).bind fun value => (declares_compile hv _ _).bind fun low =>
    (declares_compile hv _ _).bind fun high => .pure fun name => by
      simp [Expr.assigned, itemsAssigned]

theorem declares_compileChange : Declares [] Expr.assigned p.compileChange :=
  .lift _ fun name => (declares_compile hv _ []).bind fun _ => .assign name _

theorem declares_compileAppend : Declares [] Expr.assigned p.compileAppend :=
  .lift _ fun name => (declares_compileText hv _ []).bind fun _ => .assign name _

theorem declares_compileSet : Declares [] Expr.assigned p.compileSet :=
  .lift _ fun name => (declares_compile hv _ []).bind fun _ => .assign name _

theorem declares_countCode (source : CountSource) :
    Declares [] Expr.assigned (p.countCode source) := by
  cases source with
  | input => exact declares_compile hv _ []
  | field => exact .lift _ fun _ => .lift _ fun _ => .pure fun _ => .rfl

end

/-! ### Branches and loops -/

section

include hs

theorem declares_compileBody (name : String) (seen : List String) :
    Declares seen (fun body => seen ++ bodyAssigned body) (p.compileBody name) := by
  unfold Parts.compileBody
  split
  · exact .pure fun other => by simp [bodyAssigned]
  · exact (hs _ (mem_of_lookup ‹_›)).frame seen

theorem declares_compileLoopBody (seen : List String) :
    Declares seen (fun body => seen ++ bodyAssigned body) p.compileLoopBody :=
  (declares_compileBody hs "DO" seen).inLoop

end

include hs hv

theorem declares_compileArms (arms : List Nat) :
    Declares [] armsAssigned (p.compileArms arms) := by
  induction arms with
  | nil => exact .pure fun _ => .rfl
  | cons i rest ih =>
    refine (declares_compile hv _ []).bind fun condition => ?_
    refine (declares_compileBody hs _ _).inBranch.bind fun body => (ih.frame _).bind fun arms => ?_
    exact .pure fun name => by simp [armsAssigned]

theorem declares_compileBranch (alwaysElse : Bool) :
    Declares [] bodyAssigned (p.compileBranch alwaysElse) := by
  refine .lift _ fun arms => (declares_compileArms hv hs _).bind fun arms => ?_
  split
  · exact (declares_compileBody hs _ _).inBranch.bind fun last => .pure fun name => by
      rw [bodyAssigned_arms]
  · exact .pure fun name => by simp [bodyAssigned_arms, bodyAssigned]

omit hv hs in
theorem declares_boundCode (name : String) (times : Expr) :
    Declares times.assigned (fun code => bodyAssigned code.1 ++ code.2.assigned)
      (boundCode name times) := by
  unfold boundCode
  split
  · exact .pure fun _ => .rfl
  · exact (Declares.assign name times).bind fun e => .pure fun other => by
      simp [bodyAssigned, Stmt.assigned, Expr.assigned]

theorem declares_compileRepeat (source : CountSource) :
    Declares [] bodyAssigned (p.compileRepeat source) := by
  rw [compileRepeat_eq]
  refine .silent (fun κ a κ' h => (Prod.mk.inj h).2.symm) fun κ => ?_
  refine (declares_countCode hv source).bind fun times => (declares_boundCode _ times).bind fun code => ?_
  refine (Declares.declare _ _).bind fun _ => (declares_compileLoopBody hs _).bind fun body => ?_
  exact .pure fun name => by
    simp [bodyAssigned_append, bodyAssigned, countingLoop, Stmt.assigned, Expr.assigned, Expr.num]
    tauto

theorem declares_compileWhileUntil (mode : LoopMode) :
    Declares [] bodyAssigned (p.compileWhileUntil mode) := by
  refine (declares_compile hv _ []).bind fun condition => ?_
  refine (declares_compileLoopBody hs _).bind fun body => .pure fun name => ?_
  cases mode <;> simp [bodyAssigned, Stmt.assigned, Expr.assigned]

theorem declares_compileRange : Declares [] bodyAssigned p.compileRange := by
  refine .lift _ fun name => (declares_compile hv _ []).bind fun first => ?_
  refine (declares_compile hv _ _).bind fun last => (declares_compile hv _ _).bind fun step => ?_
  refine (Declares.declare _ _).bind fun _ => (Declares.declare _ _).bind fun _ => ?_
  refine (Declares.declare _ _).bind fun _ => (Declares.declare _ _).bind fun _ => ?_
  refine (declares_compileLoopBody hs _).bind fun body => .pure fun other => ?_
  simp [bodyAssigned, Stmt.assigned, Expr.assigned, itemsAssigned, Expr.num]
  tauto

theorem declares_compileForEach : Declares [] bodyAssigned p.compileForEach := by
  refine .lift _ fun name => (declares_compile hv _ []).bind fun sequence => ?_
  refine (Declares.declare _ _).bind fun _ => (declares_compileLoopBody hs _).bind fun body => ?_
  refine .pure fun other => ?_
  simp [bodyAssigned, Stmt.assigned]
  tauto

section

omit hv hs

theorem declares_expression {d : Compilation Expr} (hd : Declares [] Expr.assigned d) :
    Declares [] Code.assigned (Code.expression <$> d) :=
  hd.bind fun e => .pure fun name => by rw [assigned_expression]

theorem declares_statements {d : Compilation (List Stmt)} (hd : Declares [] bodyAssigned d) :
    Declares [] Code.assigned (Code.statements <$> d) :=
  hd.bind fun _ => .pure fun _ => .rfl

theorem declares_pure {e : Expr} (he : e.assigned = []) :
    Declares [] Code.assigned (pure (Code.expression e)) :=
  .pure fun name => by rw [assigned_expression, he]

end

section

omit hs

theorem declares_one (f : Expr → Expr) (slot : String) (hf : ∀ e, (f e).assigned = e.assigned) :
    Declares [] Code.assigned (do return Code.expression (f (← p.compile slot))) :=
  (declares_compile hv slot []).bind fun e => .pure fun name => by
    rw [assigned_expression, hf, List.nil_append]

theorem declares_oneText (f : Expr → Expr) (slot : String)
    (hf : ∀ e, (f e).assigned = e.assigned) :
    Declares [] Code.assigned (do return Code.expression (f (← p.compileText slot))) :=
  (declares_compileText hv slot []).bind fun e => .pure fun name => by
    rw [assigned_expression, hf, List.nil_append]

theorem declares_two (f : Expr → Expr → Expr) (first second : String)
    (hf : ∀ l r, (f l r).assigned = l.assigned ++ r.assigned) :
    Declares [] Code.assigned (do
      let l ← p.compile first
      let r ← p.compile second
      return Code.expression (f l r)) :=
  (declares_compile hv first []).bind fun l => (declares_compile hv second _).bind fun r =>
    .pure fun name => by rw [assigned_expression, hf, List.nil_append]

end

theorem Kind.declares (k : Kind) : Declares [] Code.assigned (k.compile p) := by
  cases k with
  | branch alwaysElse => exact declares_statements (declares_compileBranch hv hs alwaysElse)
  | repeatTimes source => exact declares_statements (declares_compileRepeat hv hs source)
  | whileUntil => exact .lift _ fun mode => declares_statements (declares_compileWhileUntil hv hs mode)
  | countRange => exact declares_statements (declares_compileRange hv hs)
  | forEach => exact declares_statements (declares_compileForEach hv hs)
  | flow =>
    refine declares_statements (.lift _ fun escape => ?_)
    cases escape <;> exact .pure fun _ => .rfl
  | null | emptyList => exact declares_pure rfl
  | boolean | constant | text | get => exact .lift _ fun _ => declares_pure rfl
  | number => exact .lift _ fun _ => .lift _ fun _ => declares_pure rfl
  | not => exact declares_one hv _ _ fun _ => rfl
  | compare | junction | arithmetic => exact .lift _ fun _ => declares_two hv _ _ _ fun _ _ => rfl
  | modulo => exact declares_two hv _ _ _ fun _ _ => rfl
  | repeatItem => exact declares_two hv _ _ _ fun l r => by simp [Expr.assigned, itemsAssigned]
  | ternary =>
    exact (declares_compile hv _ []).bind fun condition => (declares_compile hv _ _).bind fun l =>
      (declares_compile hv _ _).bind fun r => .pure fun name => by
        simp [assigned_expression, Expr.assigned]
  | function =>
    refine .lift _ fun function => declares_one hv _ _ fun e => ?_
    cases function <;> simp [MathFunction.code, Expr.assigned, itemsAssigned, Expr.num]
  | round => exact .lift _ fun rounding => declares_one hv _ _ fun e => List.append_nil _
  | property => exact .lift _ fun property => declares_expression (declares_compileProperty hv property)
  | constrain => exact declares_expression (declares_compileConstrain hv)
  | change => exact declares_expression (declares_compileChange hv)
  | append => exact declares_expression (declares_compileAppend hv)
  | set => exact declares_expression (declares_compileSet hv)
  | join =>
    exact .lift _ fun count => (declares_compileFilled hv _).bind fun texts => .pure fun name => by
      rw [assigned_expression, assigned_joinCode]
  | textLength => exact declares_oneText hv _ _ fun _ => rfl
  | textIsEmpty => exact declares_oneText hv _ _ fun e => List.append_nil _
  | changeCase =>
    refine .lift _ fun letterCase => declares_oneText hv _ _ fun e => ?_
    cases letterCase <;> exact List.append_nil _
  | trim => exact .lift _ fun side => declares_oneText hv _ _ fun e => List.append_nil _
  | createList =>
    refine .lift _ fun count => (Declares.mapM (fun i => declares_compile hv _) _ []).bind fun es => ?_
    exact .pure fun name => by rw [assigned_expression, Expr.assigned, List.nil_append]
  | listLength => exact declares_one hv _ _ fun _ => rfl
  | listIsEmpty => exact declares_one hv _ _ fun e => List.append_nil _

end

/-! ### Chains and workspaces -/

theorem declares_compileChain (chain : List (Block Kind)) :
    Declares [] Expr.assigned (compileExpression chain) ∧
      Declares [] bodyAssigned (compileChain chain) := by
  refine Block.chain_induction (P := fun b => Declares [] Code.assigned b.compile)
    (Q := fun chain => Declares [] Expr.assigned (compileExpression chain) ∧
      Declares [] bodyAssigned (compileChain chain)) ?_ ?_ ?_ chain
  · intro b hvalues hbodies
    rw [Block.compile_eq]
    refine Kind.declares ?_ ?_ b.kind
    · rw [Block.values_codeParts, List.forall_mem_map]
      exact fun s hs => (hvalues s hs).1
    · rw [Block.statements_codeParts, List.forall_mem_map]
      exact fun s hs => (hbodies s hs).2
  · exact ⟨.pure fun _ => .rfl, .pure fun _ => .rfl⟩
  · intro b rest hb hrest
    refine ⟨hb.bind fun code => ?_, hb.bind fun code => (hrest.2.frame _).bind fun body => ?_⟩
    · cases code with
      | expression e => exact .pure fun name => by rw [assigned_expression]
      | statements body => exact .fail _
    · exact .pure fun name => by rw [bodyAssigned_append, Code.assigned]

namespace Workspace

theorem declares_compileChains (chains : List (List (Block Kind))) :
    Declares [] bodyAssigned (compileChains chains) := by
  induction chains with
  | nil => exact .pure fun _ => .rfl
  | cons chain rest ih =>
    refine (declares_compileChain chain).2.bind fun body => ?_
    refine .takeEscape fun _ => (ih.frame _).bind fun others => ?_
    exact .pure fun name => by rw [bodyAssigned_append]

/-- A program declares just the variables that it assigns, each of them once. -/
theorem declared_iff_assigned {w : Workspace Kind} {program : Program}
    (h : w.compile = .ok program) : program.declared.Nodup ∧
      ∀ name, name ∈ program.declared ↔ name ∈ bodyAssigned program.body := by
  obtain ⟨κ, hbody, hdeclared⟩ := compile_eq_ok h
  have hbinds : κ.Binds (bodyAssigned program.body) :=
    declares_compileChains w.chains [] {} program.body κ hbody ⟨.nil, fun _ => .rfl⟩
  rw [hdeclared]
  exact ⟨hbinds.nodup, hbinds.mem_iff⟩

theorem partialSum_declared_iff_assigned : ∃ program, partialSum.compile = .ok program ∧
    program.declared = ["i_start", "i_end", "i_inc", "i", "sum"] ∧
    program.declared.Nodup ∧
      ∀ name, name ∈ program.declared ↔ name ∈ bodyAssigned program.body := by
  have hdeclared : partialSum.compile.toOption.map Program.declared =
      some ["i_start", "i_end", "i_inc", "i", "sum"] := by
    decide +kernel
  cases hcompile : partialSum.compile with
  | error failure =>
    rw [hcompile] at hdeclared
    exact absurd hdeclared (Option.some_ne_none _).symm
  | ok program =>
    rw [hcompile] at hdeclared
    exact ⟨program, rfl, Option.some.inj hdeclared, declared_iff_assigned hcompile⟩

end Workspace

end Blockwork
