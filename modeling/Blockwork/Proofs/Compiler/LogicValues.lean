import Blockwork.Proofs.Compiler.Parity

/-! The values of logic expressions. A run turns the operand that decides a junction into a boolean;
the program gives that operand as it is. The two differ where the operand is null, and only the truth
of the result is the same then. So it matters what the value of a junction is used for. -/

namespace Blockwork

open Target

variable {names : List String} {limit : Nat} {c : Context Value} {b : Block Kind}

/-! ### Uses of a value -/

inductive Use where
  | value
  | condition

namespace Use

/-- The program may have the one value where the run has the other. -/
def Admits : Use → Value → Target.Value → Prop
  | .value, v, w => w = v.target
  | .condition, v, w => w = v.target ∨ (v = .boolean false ∧ w = .null)

def Computes (use : Use) (names : List String) (c : Context Value) (v : Value) (e : Expr) : Prop :=
  ∃ w, Denotes names c.scopes e w ∧ use.Admits v w

def ComputesCode (use : Use) (names : List String) (c : Context Value) (v : Value) : Code → Prop
  | .expression e => use.Computes names c v e
  | .statements _ => False

theorem admits_target (use : Use) (v : Value) : use.Admits v v.target := by
  cases use with
  | value => rfl
  | condition => exact .inl rfl

variable {use : Use} {v : Value} {w : Target.Value} {truth : Bool}

theorem Admits.truthy (h : use.Admits v w) (hv : v.asCondition = .ok truth) : w.truthy = truth := by
  cases use with
  | value =>
    obtain rfl : w = v.target := h
    exact Value.truthy_of_asCondition hv
  | condition =>
    obtain rfl | ⟨rfl, rfl⟩ := h
    · exact Value.truthy_of_asCondition hv
    · exact Except.ok.inj hv

theorem Admits.boolean (h : use.Admits v w) (hv : v.asCondition = .ok truth)
    (hnull : use = .value → v ≠ .null) : use.Admits (.boolean truth) w := by
  unfold Value.asCondition at hv
  split at hv
  · obtain rfl := Except.ok.inj hv
    exact h
  · obtain rfl := Except.ok.inj hv
    cases use with
    | value => exact absurd rfl (hnull rfl)
    | condition =>
      obtain rfl | ⟨hv, -⟩ := h
      · exact .inr ⟨rfl, rfl⟩
      · exact absurd hv (by simp)
  · exact absurd hv (by simp)

end Use

/-! ### Logic expressions -/

def Kind.isLogic : Kind → Bool
  | .boolean | .null | .not | .compare | .junction | .ternary | .get => true
  | _ => false

/-- A block of a logic expression: its variable has a value, and its slots have no more than one
block. -/
structure Block.Logical (names : List String) (b : Block Kind) : Prop where
  kind : b.kind.isLogic = true
  bound : ∀ name ∈ b.fields.get? "VAR", name ∈ names
  single : ∀ s ∈ b.values, s.chain.length ≤ 1

instance (names : List String) : DecidablePred (Block.Logical names) := fun b =>
  decidable_of_iff (b.kind.isLogic = true ∧ (∀ name ∈ b.fields.get? "VAR", name ∈ names) ∧
      ∀ s ∈ b.values, s.chain.length ≤ 1)
    ⟨fun ⟨hkind, hbound, hsingle⟩ => ⟨hkind, hbound, hsingle⟩,
      fun h => ⟨h.kind, h.bound, h.single⟩⟩

def Junction.decider : Junction → Bool → String
  | .and, true | .or, false => "B"
  | .and, false | .or, true => "A"

/-- The slot that a run from the context takes a block's result from: the chosen branch of a ternary,
the operand that decides a junction. -/
inductive Block.Takes (limit : Nat) (c : Context Value) (b : Block Kind) : Socket Kind → Prop
  | branch {decided : Bool} {c₁ : Context Value} {s : Socket Kind} (hkind : b.kind = .ternary)
      (hcondition : outcome ((b.runParts limit).evaluateCondition "IF") c = (.ok decided, c₁))
      (hslot : b.slot? (if decided then "THEN" else "ELSE") = some s) : Block.Takes limit c b s
  | operand {junction : Junction} {first : Bool} {c₁ : Context Value} {s : Socket Kind}
      (hkind : b.kind = .junction)
      (hjunction : b.codeParts.option "OP" Junction.options = .ok junction)
      (hfirst : outcome ((b.runParts limit).evaluateCondition "A") c = (.ok first, c₁))
      (hslot : b.slot? (junction.decider first) = some s) : Block.Takes limit c b s

def Kind.conditionSlot? : Kind → Option String
  | .not => some "BOOL"
  | .ternary => some "IF"
  | .junction => some "A"
  | _ => none

/-- Somewhere in the expression a null decides a junction whose value counts. -/
inductive NullDecides (limit : Nat) (c : Context Value) : Use → List (Block Kind) → Prop
  | here {b : Block Kind} {s : Socket Kind} {c₁ : Context Value} (hkind : b.kind = .junction)
      (htakes : b.Takes limit c s)
      (hnull : outcome (evaluateChain limit s.chain) c = (.ok .null, c₁)) :
    NullDecides limit c .value [b]
  | taken {use : Use} {b : Block Kind} {s : Socket Kind} (htakes : b.Takes limit c s)
      (h : NullDecides limit c use s.chain) : NullDecides limit c use [b]
  | compared {use : Use} {b : Block Kind} {name : String} {s : Socket Kind}
      (hkind : b.kind = .compare) (hslot : b.slot? name = some s)
      (h : NullDecides limit c .value s.chain) : NullDecides limit c use [b]
  | condition {use : Use} {b : Block Kind} {name : String} {s : Socket Kind}
      (hname : b.kind.conditionSlot? = some name) (hslot : b.slot? name = some s)
      (h : NullDecides limit c .condition s.chain) : NullDecides limit c use [b]

/-! ### Slots -/

theorem Block.Takes.mem {s : Socket Kind} (h : b.Takes limit c s) : s ∈ b.values := by
  cases h with
  | branch _ _ hslot | operand _ _ _ hslot => exact (mem_of_slot hslot).1

theorem slot_eq_ok {name : String} {v : Value} {c₁ : Context Value} {e : Expr} {κ κ₁ : Context Expr}
    (hrun : outcome ((b.runParts limit).evaluate name) c = (.ok v, c₁))
    (hcode : outcome (b.codeParts.compile name) κ = (.ok e, κ₁)) :
    ∃ s, b.slot? name = some s ∧ outcome (evaluateChain limit s.chain) c = (.ok v, c₁) ∧
      outcome (compileExpression s.chain) κ = (.ok e, κ₁) := by
  obtain ⟨plug, c₂, hplug, hrun⟩ := bind_eq_ok.1 hrun
  obtain ⟨plug', κ₂, hplug', hcode⟩ := bind_eq_ok.1 hcode
  obtain ⟨hread, rfl⟩ := Run.lift_eq_ok.1 hplug
  obtain ⟨hread', rfl⟩ := Compilation.lift_eq_ok.1 hplug'
  obtain ⟨s, hslot, rfl, rfl⟩ := plug_eq_ok hread hread'
  exact ⟨s, hslot, hrun, hcode⟩

theorem condition_eq_ok {name : String} {truth : Bool} {c₁ : Context Value}
    (h : outcome ((b.runParts limit).evaluateCondition name) c = (.ok truth, c₁)) :
    ∃ v, outcome ((b.runParts limit).evaluate name) c = (.ok v, c₁) ∧
      v.asCondition = .ok truth := by
  obtain ⟨v, c₂, hv, hlift⟩ := bind_eq_ok.1 h
  obtain ⟨htruth, rfl⟩ := Run.lift_eq_ok.1 hlift
  exact ⟨v, hv, htruth⟩

section

variable {use : Use}
  (hslots : ∀ name s, b.slot? name = some s → ∀ use, ¬ NullDecides limit c use s.chain →
    Mirrors c (use.Computes names c) (evaluateChain limit s.chain) (compileExpression s.chain))

include hslots

variable (use) in
theorem slot_computes {name : String} {v : Value} {c₁ : Context Value} {e : Expr}
    {κ κ₁ : Context Expr} (hrun : outcome ((b.runParts limit).evaluate name) c = (.ok v, c₁))
    (hcode : outcome (b.codeParts.compile name) κ = (.ok e, κ₁))
    (hnone : ∀ s, b.slot? name = some s → ¬ NullDecides limit c use s.chain) :
    c = c₁ ∧ use.Computes names c v e := by
  obtain ⟨s, hslot, hrun, hcode⟩ := slot_eq_ok hrun hcode
  obtain ⟨hc, hcomputes⟩ := hslots name s hslot use (hnone s hslot) v c₁ κ e κ₁ hrun hcode
  exact ⟨hc.symm, hcomputes⟩

theorem slot_condition {name : String} {truth : Bool} {c₁ : Context Value} {e : Expr}
    {κ κ₁ : Context Expr}
    (hrun : outcome ((b.runParts limit).evaluateCondition name) c = (.ok truth, c₁))
    (hcode : outcome (b.codeParts.compile name) κ = (.ok e, κ₁))
    (hname : b.kind.conditionSlot? = some name) (hnone : ¬ NullDecides limit c use [b]) :
    c = c₁ ∧ ∃ w, Denotes names c.scopes e w ∧ w.truthy = truth := by
  obtain ⟨v, hv, htruth⟩ := condition_eq_ok hrun
  obtain ⟨hc, w, hw, hadmits⟩ := slot_computes .condition hslots hv hcode fun s hslot h =>
    hnone (.condition hname hslot h)
  exact ⟨hc, w, hw, hadmits.truthy htruth⟩

theorem slot_taken {name : String} {v : Value} {c₁ : Context Value} {e : Expr} {κ κ₁ : Context Expr}
    (hrun : outcome ((b.runParts limit).evaluate name) c = (.ok v, c₁))
    (hcode : outcome (b.codeParts.compile name) κ = (.ok e, κ₁))
    (htakes : ∀ s, b.slot? name = some s → b.Takes limit c s)
    (hnone : ¬ NullDecides limit c use [b]) :
    c = c₁ ∧ use.Computes names c v e :=
  slot_computes use hslots hrun hcode fun s hslot h => hnone (.taken (htakes s hslot) h)

theorem slot_decides {junction : Junction} {first truth : Bool} {c₁ c₂ : Context Value} {e : Expr}
    {κ κ₁ : Context Expr} (hkind : b.kind = .junction)
    (hjunction : b.codeParts.option "OP" Junction.options = .ok junction)
    (hfirst : outcome ((b.runParts limit).evaluateCondition "A") c = (.ok first, c₁))
    (hrun : outcome ((b.runParts limit).evaluateCondition (junction.decider first)) c =
      (.ok truth, c₂))
    (hcode : outcome (b.codeParts.compile (junction.decider first)) κ = (.ok e, κ₁))
    (hnone : ¬ NullDecides limit c use [b]) :
    c = c₂ ∧ use.Computes names c (.boolean truth) e := by
  have htakes := fun s => Block.Takes.operand (s := s) hkind hjunction hfirst
  obtain ⟨v, hv, htruth⟩ := condition_eq_ok hrun
  obtain ⟨hc, w, hw, hadmits⟩ := slot_taken hslots hv hcode htakes hnone
  refine ⟨hc, w, hw, hadmits.boolean htruth ?_⟩
  rintro rfl rfl
  obtain ⟨s, hslot, hnull, -⟩ := slot_eq_ok hv hcode
  exact hnone (.here hkind (htakes s hslot) hnull)

/-! ### Blocks -/

theorem logic_not (hkind : b.kind = .not) (hnone : ¬ NullDecides limit c use [b]) :
    Mirrors c (use.ComputesCode names c) (Kind.not.evaluate limit (b.runParts limit))
      (Kind.not.compile b.codeParts) := by
  intro v c₁ κ code κ₁ hm hd
  obtain ⟨truth, c₂, htruth, hm⟩ := bind_eq_ok.1 hm
  obtain ⟨e, κ₂, he, hd⟩ := bind_eq_ok.1 hd
  obtain ⟨rfl, rfl⟩ := pure_eq_ok.1 hm
  obtain ⟨rfl, -⟩ := pure_eq_ok.1 hd
  obtain ⟨rfl, w, hw, rfl⟩ := slot_condition hslots htruth he (by rw [hkind]; rfl) hnone
  exact ⟨rfl, _, hw.unary .not, use.admits_target _⟩

theorem logic_compare (hkind : b.kind = .compare) (hnone : ¬ NullDecides limit c use [b]) :
    Mirrors c (use.ComputesCode names c) (Kind.compare.evaluate limit (b.runParts limit))
      (Kind.compare.compile b.codeParts) := by
  intro v c₁ κ code κ₁ hm hd
  obtain ⟨comparison, -, hm, hd⟩ := setting_eq_ok hm hd
  obtain ⟨x, c₂, hx, hm⟩ := bind_eq_ok.1 hm
  obtain ⟨y, c₃, hy, hm⟩ := bind_eq_ok.1 hm
  obtain ⟨decided, c₄, hlift, hm⟩ := bind_eq_ok.1 hm
  obtain ⟨hholds, rfl⟩ := Run.lift_eq_ok.1 hlift
  obtain ⟨rfl, rfl⟩ := pure_eq_ok.1 hm
  obtain ⟨l, κ₂, hl, hd⟩ := bind_eq_ok.1 hd
  obtain ⟨r, κ₃, hr, hd⟩ := bind_eq_ok.1 hd
  obtain ⟨rfl, -⟩ := pure_eq_ok.1 hd
  obtain ⟨rfl, _, hl, rfl⟩ := slot_computes .value hslots hx hl fun s hslot h =>
    hnone (.compared hkind hslot h)
  obtain ⟨rfl, _, hr, rfl⟩ := slot_computes .value hslots hy hr fun s hslot h =>
    hnone (.compared hkind hslot h)
  have hop : comparison.operator.decides x.target = false := by cases comparison <;> rfl
  have hresult := hl.binary hr hop
  rw [Value.holds_target hholds] at hresult
  exact ⟨rfl, _, hresult, use.admits_target (.boolean decided)⟩

theorem logic_ternary (hkind : b.kind = .ternary) (hnone : ¬ NullDecides limit c use [b]) :
    Mirrors c (use.ComputesCode names c) (Kind.ternary.evaluate limit (b.runParts limit))
      (Kind.ternary.compile b.codeParts) := by
  intro v c₁ κ code κ₁ hm hd
  obtain ⟨decided, c₂, hcondition, hm⟩ := bind_eq_ok.1 hm
  obtain ⟨e, κ₂, he, hd⟩ := bind_eq_ok.1 hd
  obtain ⟨l, κ₃, hl, hd⟩ := bind_eq_ok.1 hd
  obtain ⟨r, κ₄, hr, hd⟩ := bind_eq_ok.1 hd
  obtain ⟨rfl, -⟩ := pure_eq_ok.1 hd
  obtain ⟨rfl, w, hw, htruthy⟩ := slot_condition hslots hcondition he (by rw [hkind]; rfl) hnone
  have htakes := fun s => Block.Takes.branch (s := s) hkind hcondition
  cases decided with
  | true =>
    obtain ⟨rfl, u, hu, hadmits⟩ := slot_taken hslots hm hl htakes hnone
    exact ⟨rfl, u, hw.conditional_true htruthy hu, hadmits⟩
  | false =>
    obtain ⟨rfl, u, hu, hadmits⟩ := slot_taken hslots hm hr htakes hnone
    exact ⟨rfl, u, hw.conditional_false htruthy hu, hadmits⟩

theorem logic_junction (hkind : b.kind = .junction) (hnone : ¬ NullDecides limit c use [b]) :
    Mirrors c (use.ComputesCode names c) (Kind.junction.evaluate limit (b.runParts limit))
      (Kind.junction.compile b.codeParts) := by
  intro v c₁ κ code κ₁ hm hd
  obtain ⟨junction, hjunction, hm, hd⟩ := setting_eq_ok hm hd
  obtain ⟨first, c₂, hfirst, hm⟩ := bind_eq_ok.1 hm
  obtain ⟨l, κ₂, hl, hd⟩ := bind_eq_ok.1 hd
  obtain ⟨r, κ₃, hr, hd⟩ := bind_eq_ok.1 hd
  obtain ⟨rfl, -⟩ := pure_eq_ok.1 hd
  obtain ⟨rfl, w, hw, htruthy⟩ := slot_condition hslots hfirst hl (by rw [hkind]; rfl) hnone
  have hsecond : junction.decider first = "B" → junction.operator.decides w = false →
      (∀ u, junction.operator.apply w u = u) →
      outcome (do return Value.boolean (← (b.runParts limit).evaluateCondition "B")) c =
        (.ok v, c₁) →
      c₁ = c ∧ use.ComputesCode names c v (.expression (.binary junction.operator l r)) := by
    intro hname hdecides happly hm
    obtain ⟨truth, c₃, hrun, hm⟩ := bind_eq_ok.1 hm
    obtain ⟨rfl, rfl⟩ := pure_eq_ok.1 hm
    obtain ⟨rfl, u, hu, hadmits⟩ :=
      slot_decides hslots hkind hjunction hfirst (hname ▸ hrun) (hname ▸ hr) hnone
    have hresult := hw.binary hu hdecides
    rw [happly] at hresult
    exact ⟨rfl, u, hresult, hadmits⟩
  have hdecided : junction.decider first = "A" →
      (∀ u : Target.Value, u.truthy = first → junction.operator.decides u = true) →
      outcome (pure (Value.boolean first) : Run Value) c = (.ok v, c₁) →
      c₁ = c ∧ use.ComputesCode names c v (.expression (.binary junction.operator l r)) := by
    intro hname hdecides hm
    obtain ⟨rfl, rfl⟩ := pure_eq_ok.1 hm
    obtain ⟨-, u, hu, hadmits⟩ :=
      slot_decides hslots hkind hjunction hfirst (hname ▸ hfirst) (hname ▸ hl) hnone
    exact ⟨rfl, u, hu.decided (hdecides u (hadmits.truthy rfl)), hadmits⟩
  cases junction with
  | and =>
    cases first with
    | true => exact hsecond rfl (congrArg not htruthy) (fun _ => rfl) hm
    | false => exact hdecided rfl (fun _ h => congrArg not h) hm
  | or =>
    cases first with
    | true => exact hdecided rfl (fun _ h => h) hm
    | false => exact hsecond rfl htruthy (fun _ => rfl) hm

end

/-! ### Trees -/

theorem logic_kind (hlogical : b.Logical names) {use : Use}
    (hslots : ∀ s ∈ b.values, ∀ use, ¬ NullDecides limit c use s.chain →
      Mirrors c (use.Computes names c) (evaluateChain limit s.chain) (compileExpression s.chain))
    (hnone : ¬ NullDecides limit c use [b]) :
    Mirrors c (use.ComputesCode names c) (b.kind.evaluate limit (b.runParts limit))
      (b.kind.compile b.codeParts) := by
  have hslots : ∀ name s, b.slot? name = some s → ∀ use, ¬ NullDecides limit c use s.chain →
      Mirrors c (use.Computes names c) (evaluateChain limit s.chain) (compileExpression s.chain) :=
    fun name s hslot => hslots s (Block.mem_of_slot hslot).1
  have hexact : ∀ {v : Value} {e : Expr}, Denotes names c.scopes e v.target →
      use.ComputesCode names c v (.expression e) := fun h => ⟨_, h, use.admits_target _⟩
  have hlogic := hlogical.kind
  cases hkind : b.kind with
  | boolean => exact .lift fun _ _ => .pure (hexact fun _ _ => rfl)
  | null => exact .pure (hexact fun _ _ => rfl)
  | not => exact logic_not hslots hkind hnone
  | compare => exact logic_compare hslots hkind hnone
  | junction => exact logic_junction hslots hkind hnone
  | ternary => exact logic_ternary hslots hkind hnone
  | get =>
    refine .lift fun name hname => ?_
    intro v c₁ κ code κ₁ hm hd
    rw [Run.outcome_get] at hm
    obtain ⟨hv, rfl⟩ := Prod.mk.inj hm
    obtain rfl := Except.ok.inj hv
    obtain ⟨rfl, -⟩ := pure_eq_ok.1 hd
    exact ⟨rfl, hexact (Denotes.get (hlogical.bound name (Parts.field_eq_ok.1 hname)))⟩
  | _ =>
    rw [hkind] at hlogic
    exact absurd hlogic Bool.false_ne_true

/-- As long as no null decides a junction whose value counts, the expression of a logic tree has the
value of its run, or at least its truth where only that counts. -/
theorem logic_mirrors (c : Context Value) {chain : List (Block Kind)}
    (hlogical : Block.AllOf (Block.Logical names) chain) (hsingle : chain.length ≤ 1) {use : Use}
    (hnone : ¬ NullDecides limit c use chain) :
    Mirrors c (use.Computes names c) (evaluateChain limit chain) (compileExpression chain) := by
  revert use
  revert hlogical hsingle
  refine Block.chain_induction
    (P := fun b => b.All (Block.Logical names) → ∀ use, ¬ NullDecides limit c use [b] →
      Mirrors c (use.ComputesCode names c) (b.evaluate limit) b.compile)
    (Q := fun chain => Block.AllOf (Block.Logical names) chain → chain.length ≤ 1 →
      ∀ use, ¬ NullDecides limit c use chain →
        Mirrors c (use.Computes names c) (evaluateChain limit chain) (compileExpression chain))
    ?_ ?_ ?_ chain
  · intro b hvalues _ hall use hnone
    obtain ⟨hb, hslots, -⟩ := Block.all_iff.1 hall
    rw [Block.evaluate_eq, Block.compile_eq]
    exact logic_kind hb (fun s hs => hvalues s hs (hslots s hs) (hb.single s hs)) hnone
  · exact fun _ _ use _ => .pure ⟨.null, fun _ _ => rfl, use.admits_target .null⟩
  · intro b rest hb _ hall hsingle use hnone
    obtain rfl : rest = [] := List.eq_nil_of_length_eq_zero (by simpa using hsingle)
    have hrun : evaluateChain limit [b] = b.evaluate limit >>= pure := rfl
    rw [hrun]
    refine (hb hall.1 use hnone).bind fun v code hcode => ?_
    cases code with
    | expression e => exact .pure hcode
    | statements body => exact absurd hcode id

/-- Where a logic tree runs and compiles, its expression has in the program's store the value of the
run, unless a null decides a junction whose value counts. -/
theorem logic_value_of_compiled {bindings : List (String × Value)} {chain : List (Block Kind)}
    (hlogical : Block.AllOf (Block.Logical (Entries.ofList bindings).names) chain)
    (hsingle : chain.length ≤ 1) {v : Value} {c₁ : Context Value} {e : Expr} {κ κ₁ : Context Expr}
    (hrun : outcome (evaluateChain limit chain) (.ofBindings bindings) = (.ok v, c₁))
    (hcode : outcome (compileExpression chain) κ = (.ok e, κ₁))
    (hnone : ¬ NullDecides limit (.ofBindings bindings) .value chain) :
    e.eval (storeOf bindings) = some (v.target, storeOf bindings) := by
  obtain ⟨-, w, hw, rfl⟩ := logic_mirrors _ hlogical hsingle hnone v c₁ κ e κ₁ hrun hcode
  exact hw _ (agrees_ofBindings bindings)

theorem not_nullDecides_leaf {use : Use} (hjunction : b.kind ≠ .junction) (hternary : b.kind ≠ .ternary)
    (hcompare : b.kind ≠ .compare) (hcondition : b.kind.conditionSlot? = none) :
    ¬ NullDecides limit c use [b] := by
  intro h
  cases h with
  | here hkind => exact hjunction hkind
  | taken htakes =>
    cases htakes with
    | branch hkind => exact hternary hkind
    | operand hkind => exact hjunction hkind
  | compared hkind => exact hcompare hkind
  | condition hname =>
    rw [hcondition] at hname
    exact Option.some_ne_none _ hname.symm

def variableNamed (name : String) : Block Kind :=
  ⟨.get, "variables_get", "g", [("VAR", name)], [], [], [], []⟩

def conjunction (first second : List (Block Kind)) : Block Kind :=
  ⟨.junction, "logic_operation", "o", [("OP", "AND")], [⟨"A", first⟩, ⟨"B", second⟩], [], [], []⟩

/-- A null decides the conjunction, but only the truth of that is asked. -/
def negatedConjunction : List (Block Kind) :=
  [⟨.not, "logic_negate", "n", [],
    [⟨"BOOL", [conjunction [variableNamed "x"] [variableNamed "y"]]⟩], [], [], []⟩]

def truthBindings : List (String × Value) := [("x", .boolean true), ("y", .null)]

theorem negatedConjunction_value :
    Block.AllOf (Block.Logical (Entries.ofList truthBindings).names) negatedConjunction ∧
      negatedConjunction.length ≤ 1 ∧
      ¬ NullDecides 1 (.ofBindings truthBindings) .value negatedConjunction ∧
      outcome (evaluateChain 1 negatedConjunction) (.ofBindings truthBindings) =
        (.ok (.boolean true), .ofBindings truthBindings) ∧
      (Expr.unary .not (.binary .and (.variable "x") (.variable "y"))).eval
        (storeOf truthBindings) = some (.boolean true, storeOf truthBindings) := by
  have hlogical : Block.AllOf (Block.Logical (Entries.ofList truthBindings).names)
      negatedConjunction := by decide
  have hvariable : ∀ use name, ¬ NullDecides 1 (.ofBindings truthBindings) use
      [variableNamed name] := fun use name =>
    not_nullDecides_leaf Kind.noConfusion Kind.noConfusion Kind.noConfusion rfl
  have hoperand : ∀ use, ∀ s ∈ (conjunction [variableNamed "x"] [variableNamed "y"]).values,
      ¬ NullDecides 1 (.ofBindings truthBindings) use s.chain := by
    intro use s hs
    rcases List.mem_pair.1 hs with rfl | rfl
    · exact hvariable use "x"
    · exact hvariable use "y"
  have hconjunction : ¬ NullDecides 1 (.ofBindings truthBindings) .condition
      [conjunction [variableNamed "x"] [variableNamed "y"]] := by
    intro h
    cases h with
    | taken htakes h => exact hoperand _ _ htakes.mem h
    | compared hkind => exact Kind.noConfusion hkind
    | condition _ hslot h => exact hoperand _ _ (Block.mem_of_slot hslot).1 h
  have hnone : ¬ NullDecides 1 (.ofBindings truthBindings) .value negatedConjunction := by
    intro h
    cases h with
    | here hkind | compared hkind => exact Kind.noConfusion hkind
    | taken htakes =>
      cases htakes with
      | branch hkind | operand hkind => exact Kind.noConfusion hkind
    | condition _ hslot h =>
      obtain rfl := List.mem_singleton.1 (Block.mem_of_slot hslot).1
      exact hconjunction h
  have hrun : outcome (evaluateChain 1 negatedConjunction) (.ofBindings truthBindings) =
      (.ok (.boolean true), .ofBindings truthBindings) := by with_unfolding_all rfl
  have hcode : outcome (compileExpression negatedConjunction) {} =
      (.ok (.unary .not (.binary .and (.variable "x") (.variable "y"))), {}) := by
    with_unfolding_all rfl
  exact ⟨hlogical, Nat.le_refl 1, hnone, hrun,
    logic_value_of_compiled hlogical (Nat.le_refl 1) hrun hcode hnone⟩

/-- A null decides a conjunction that is a value. The run makes false of it, the program does not. -/
theorem conjunction_of_null : ∃ e κ,
    Block.AllOf (Block.Logical []) [conjunction [] []] ∧
      outcome (evaluateChain 1 [conjunction [] []]) (.ofBindings []) =
        (.ok (.boolean false), .ofBindings []) ∧
      outcome (compileExpression [conjunction [] []]) {} = (.ok e, κ) ∧
      e.eval (storeOf []) = some (.null, storeOf []) := by
  refine ⟨.binary .and .null .null, {}, by decide, ?_, ?_, rfl⟩
  · with_unfolding_all rfl
  · with_unfolding_all rfl

end Blockwork
