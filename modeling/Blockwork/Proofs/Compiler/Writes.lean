import Blockwork.Proofs.Compiler.Steps
import Blockwork.Proofs.Entries

/-! What compilation reads of its context and what it writes into it. From all contexts of one depth a
chain has one result and binds the same names of the root to the same expressions, one after the
other; the rest of the context stays as it is. -/

namespace Blockwork

open Target

variable {α β : Type}

namespace Context

variable {V : Type}

def declareAll (c : Context V) (new : Entries V) : Context V :=
  { c with root := { c.root with bindings := c.root.bindings.putAll new } }

theorem declareAll_append (c : Context V) (new new' : Entries V) :
    c.declareAll (new ++ new') = (c.declareAll new).declareAll new' := by
  unfold declareAll
  rw [Entries.putAll_append]

def bare (depth : Nat) : Context V := { inner := List.replicate depth {} }

theorem depth_bare (depth : Nat) : (bare depth : Context V).depth = depth := List.length_replicate

end Context

/-- From all contexts of one depth the work has one result, binds the same names in the root to the
same expressions, and does nothing else. -/
def Writes (d : Compilation α) : Prop :=
  ∀ depth, ∃ result new, ∀ κ, κ.depth = depth → outcome d κ = (result, κ.declareAll new)

namespace Writes

theorem pure (a : α) : Writes (Pure.pure a) := fun _ => ⟨.ok a, [], fun _ _ => rfl⟩

theorem fail (e : EngineError) : Writes (throw e : Compilation α) :=
  fun _ => ⟨.error e, [], fun _ _ => rfl⟩

theorem declare (name : String) (e : Expr) : Writes (Compilation.declare name e) :=
  fun _ => ⟨.ok (), [(name, e)], fun _ _ => rfl⟩

theorem bind {d : Compilation α} {f : α → Compilation β} (h : Writes d) (hf : ∀ a, Writes (f a)) :
    Writes (d >>= f) := by
  intro depth
  obtain ⟨result, new, hd⟩ := h depth
  cases result with
  | error e => exact ⟨.error e, new, fun κ hκ => by rw [outcome_bind, hd κ hκ]⟩
  | ok a =>
    -- Bindings in the root leave the depth as it is, so that the rest starts from the same one.
    obtain ⟨result, new', hfa⟩ := hf a depth
    refine ⟨result, new ++ new', fun κ hκ => ?_⟩
    rw [outcome_bind, hd κ hκ, Context.declareAll_append]
    exact hfa (κ.declareAll new) hκ

theorem atDepth {f : Context Expr → Compilation α} (hf : ∀ κ κ', κ.depth = κ'.depth → f κ = f κ')
    (h : ∀ κ, Writes (f κ)) : Writes (MonadState.get >>= f) := by
  intro depth
  obtain ⟨result, new, hd⟩ := h (.bare depth) depth
  refine ⟨result, new, fun κ hκ => ?_⟩
  rw [← hd κ hκ, hf (.bare depth) κ ((Context.depth_bare depth).trans hκ.symm)]
  rfl

/-- The scope of a branch binds nothing and has no escape when it closes, so nothing is left of it. -/
theorem inBranch {d : Compilation α} (h : Writes d) : Writes (Traversal.inBranch d) := by
  intro depth
  obtain ⟨result, new, hd⟩ := h (depth + 1)
  refine ⟨result, new, fun κ hκ => ?_⟩
  rw [Traversal.outcome_inBranch, hd κ.push (congrArg (· + 1) hκ)]
  rfl

theorem inLoop {d : Compilation α} (h : Writes d) : Writes (Traversal.inLoop d) := by
  intro depth
  obtain ⟨result, new, hd⟩ := h (depth + 1)
  refine ⟨result, new, fun κ hκ => ?_⟩
  rw [Traversal.outcome_inLoop, hd κ.push (congrArg (· + 1) hκ)]
  rfl

theorem result_eq {d : Compilation α} (h : Writes d) {κ κ' : Context Expr}
    (hdepth : κ.depth = κ'.depth) : (outcome d κ).1 = (outcome d κ').1 := by
  obtain ⟨result, new, hd⟩ := h κ'.depth
  rw [hd κ hdepth, hd κ' rfl]

end Writes

theorem Parts.CodeSteps.writes {p : Parts SlotCode} {k : Kind} {d : Compilation α}
    (hv : ∀ e ∈ p.values, Writes e.2.meaning.expression)
    (hs : ∀ e ∈ p.statements, Writes e.2.meaning.statements) (h : p.CodeSteps k 0 d) :
    Writes d := by
  induction h with
  | pure a => exact .pure a
  | fail e => exact .fail e
  | bind _ _ ih ih' => exact ih.bind ih'
  | expression hplug => exact hv _ hplug
  | statements hplug => exact hs _ hplug
  | declare e _ _ => exact .declare _ e
  | atDepth hf _ ih => exact .atDepth hf fun κ => ih κ (Nat.zero_le _)
  | inBranch _ ih => exact ih.inBranch
  | inLoop _ ih => exact ih.inLoop

/-! ### Chains -/

theorem writes_compileChain (chain : List (Block Kind)) :
    Writes (compileExpression chain) ∧ Writes (compileChain chain) := by
  -- A slot is compiled as a value or as statements, so both are needed of the chains in it.
  refine Block.chain_induction (P := fun b => Writes b.compile)
    (Q := fun chain => Writes (compileExpression chain) ∧ Writes (compileChain chain)) ?_ ?_ ?_ chain
  · intro b hvalues hbodies
    rw [Block.compile_eq]
    refine (Kind.codeSteps b.codeParts b.kind 0).writes ?_ ?_
    · rw [Block.values_codeParts, List.forall_mem_map]
      exact fun s hs => (hvalues s hs).1
    · rw [Block.statements_codeParts, List.forall_mem_map]
      exact fun s hs => (hbodies s hs).2
  · exact ⟨.pure _, .pure _⟩
  · intro b rest hb hrest
    refine ⟨hb.bind fun code => ?_, hb.bind fun _ => hrest.2.bind fun _ => .pure _⟩
    cases code with
    | expression e => exact .pure e
    | statements body => exact .fail _

namespace Block

variable (b : Block Kind)

theorem writes_values : ∀ e ∈ b.codeParts.values, Writes e.2.meaning.expression := by
  rw [values_codeParts, List.forall_mem_map]
  exact fun s _ => (writes_compileChain s.chain).1

theorem writes_statements : ∀ e ∈ b.codeParts.statements, Writes e.2.meaning.statements := by
  rw [statements_codeParts, List.forall_mem_map]
  exact fun s _ => (writes_compileChain s.chain).2

end Block

/-- The names that compiling a chain at a depth binds, in the order in which they first come up, each
with its last expression: what is bound when nothing was before. -/
def writtenBy (chain : List (Block Kind)) (depth : Nat) : Entries Expr :=
  (outcome (compileChain chain) (.bare depth)).2.root.bindings

/-- The second context is the first one with these names bound in its root: the new ones among them
behind the names that were there, in their order. -/
structure Context.Extended (new : Entries Expr) (κ κ' : Context Expr) : Prop where
  depth : κ'.depth = κ.depth
  inner : κ'.inner = κ.inner
  escape : κ'.root.escape = κ.root.escape
  names : κ'.root.bindings.names =
    κ.root.bindings.names ++ new.names.filter fun name => name ∉ κ.root.bindings.names
  bound : ∀ name e, new.get? name = some e → κ'.root.bindings.get? name = some e
  kept : ∀ name ∉ new.names, κ'.root.bindings.get? name = κ.root.bindings.get? name

theorem Context.extended_declareAll (κ : Context Expr) (new : Entries Expr) :
    κ.Extended (Entries.ofList new) (κ.declareAll new) where
  depth := rfl
  inner := rfl
  escape := rfl
  names := Entries.names_putAll κ.root.bindings new
  bound name e he := by rw [declareAll, Entries.get?_putAll, he, Option.some_or]
  kept name hname := by
    rw [declareAll, Entries.get?_putAll, Entries.get?_eq_none.2 hname, Option.none_or]

/-- Of its context a chain sees the depth alone. From two contexts of one depth it compiles to the same
statements or fails with the same error, and either way both contexts are afterwards as they were but
for the names that the call binds, which have the same expressions in both. -/
theorem compileChain_sees_only_depth (chain : List (Block Kind)) {κ κ' : Context Expr}
    (h : κ.depth = κ'.depth) :
    (outcome (compileChain chain) κ).1 = (outcome (compileChain chain) κ').1 ∧
      κ.Extended (writtenBy chain κ.depth) (outcome (compileChain chain) κ).2 ∧
      κ'.Extended (writtenBy chain κ.depth) (outcome (compileChain chain) κ').2 ∧
      ∀ name ∈ (writtenBy chain κ.depth).names, ∃ e,
        (outcome (compileChain chain) κ).2.root.bindings.get? name = some e ∧
          (outcome (compileChain chain) κ').2.root.bindings.get? name = some e := by
  have hwrites := (writes_compileChain chain).2
  obtain ⟨result, new, hd⟩ := hwrites κ.depth
  have hwritten : writtenBy chain κ.depth = Entries.ofList new := by
    rw [writtenBy, hd _ (Context.depth_bare _)]
    rfl
  have hκ := κ.extended_declareAll new
  have hκ' := κ'.extended_declareAll new
  refine ⟨hwrites.result_eq h, ?_⟩
  rw [hwritten, hd κ rfl, hd κ' h.symm]
  refine ⟨hκ, hκ', fun name hname => ?_⟩
  obtain ⟨e, he⟩ := Option.ne_none_iff_exists'.1 fun hnone => Entries.get?_eq_none.1 hnone hname
  exact ⟨e, hκ.bound name e he, hκ'.bound name e he⟩

def tally : List (Block Kind) :=
  let condition : Block Kind := ⟨.boolean, "logic_boolean", "c", [("BOOL", "TRUE")], [], [], [], []⟩
  let times : Block Kind := ⟨.get, "variables_get", "g", [("VAR", "n")], [], [], [], []⟩
  let mark : Block Kind := ⟨.text, "text", "t", [("TEXT", "!")], [], [], [], []⟩
  let append : Block Kind :=
    ⟨.append, "text_append", "a", [("VAR", "x")], [⟨"TEXT", [mark]⟩], [], [], []⟩
  let loop : Block Kind := ⟨.repeatTimes .input, "controls_repeat_ext", "r", [], [⟨"TIMES", [times]⟩],
    [⟨"DO", [append]⟩], [], []⟩
  [⟨.branch false, "controls_if", "b", [], [⟨"IF0", [condition]⟩], [⟨"DO0", [loop]⟩], [], []⟩]

theorem tally_sees_only_depth :
    let κ : Context Expr :=
      { inner := [{ bindings := [("count2", .null)], escape := .breaking }]
        root := { bindings := [("x", .null), ("y", .null)], escape := .continuing } }
    let κ' : Context Expr := .bare 1
    κ.depth = κ'.depth ∧ (outcome (compileChain tally) κ).1.toOption.isSome = true ∧
      (outcome (compileChain tally) κ).1 = (outcome (compileChain tally) κ').1 ∧
      (outcome (compileChain tally) κ).2.inner = κ.inner ∧
      (outcome (compileChain tally) κ).2.root.bindings.names = ["x", "y", "count2_end", "count2"] ∧
      ∀ name ∈ ["count2_end", "count2", "x"], ∃ e,
        (outcome (compileChain tally) κ).2.root.bindings.get? name = some e ∧
          (outcome (compileChain tally) κ').2.root.bindings.get? name = some e := by
  intro κ κ'
  have hwritten : (writtenBy tally 1).names = ["count2_end", "count2", "x"] := by decide +kernel
  have hdepth : κ.depth = κ'.depth := rfl
  obtain ⟨hresult, hκ, -, hsame⟩ := compileChain_sees_only_depth tally hdepth
  have hnames := hκ.names
  rw [show κ.depth = 1 from rfl] at hsame hnames
  rw [hwritten] at hsame hnames
  exact ⟨hdepth, by decide +kernel, hresult, hκ.inner, hnames, hsame⟩

end Blockwork
