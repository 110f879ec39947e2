import Blockwork.Proofs.Compiler.Temporaries
import Blockwork.Proofs.Compiler.TextKinds

/-! Value slots in the part of the language that runs and compiled programs share: the expression of
a slot denotes the value of the slot. -/

namespace Blockwork

open Target

def Kind.isCondition : Kind → Bool
  | .boolean | .compare | .not | .junction | .property | .textIsEmpty | .listIsEmpty => true
  | _ => false

def holdsCondition : List (Block Kind) → Bool
  | [block] => block.kind.isCondition
  | _ => false

/-- A block is tame, its variable has a value, and operands that a junction gives as its own value
are booleans. What a range brings is no variable, and no range counts inside another one through the
same variable. -/
structure Block.Shared (names : List String) (b : Block Kind) : Prop where
  tame : b.Tame
  bound : ∀ name ∈ b.fields.get? "VAR", name ∈ names
  operands : b.kind = .junction → ∀ s ∈ b.values, s.name = "A" ∨ s.name = "B" →
    holdsCondition s.chain = true
  unbound : b.kind = .countRange → ∀ name ∈ b.fields.get? "VAR",
    ∀ temporary ∈ rangeNames name, temporary ∉ names
  nested : b.kind = .countRange → ∀ name ∈ b.fields.get? "VAR", name ∉ slotRanges b.statements

instance (names : List String) : DecidablePred (Block.Shared names) := fun b =>
  decidable_of_iff (b.Tame ∧ (∀ name ∈ b.fields.get? "VAR", name ∈ names) ∧
      (b.kind = .junction → ∀ s ∈ b.values, s.name = "A" ∨ s.name = "B" →
        holdsCondition s.chain = true) ∧
      (b.kind = .countRange → ∀ name ∈ b.fields.get? "VAR",
        ∀ temporary ∈ rangeNames name, temporary ∉ names) ∧
      (b.kind = .countRange → ∀ name ∈ b.fields.get? "VAR", name ∉ slotRanges b.statements))
    ⟨fun ⟨h₁, h₂, h₃, h₄, h₅⟩ => ⟨h₁, h₂, h₃, h₄, h₅⟩,
      fun h => ⟨h.tame, h.bound, h.operands, h.unbound, h.nested⟩⟩

variable {names : List String} {limit : Nat}

/-! ### Conditions -/

theorem gives_condition {p : Parts (Run Value)} {k : Kind} (h : k.isCondition = true) :
    Gives (fun v => ∃ decided, v = .boolean decided) (k.evaluate limit p) := by
  have hpure : ∀ decided, Gives (fun v => ∃ decided, v = .boolean decided)
      (pure (.boolean decided) : Run Value) := fun decided => .pure ⟨decided, rfl⟩
  cases k with
  | boolean => exact .of_last fun _ => hpure _
  | compare => exact .of_last fun _ => .of_last fun _ => .of_last fun _ => .of_last fun _ => hpure _
  | not => exact .of_last fun _ => hpure _
  | junction =>
    refine .of_last fun junction => .of_last fun first => ?_
    split
    · exact .of_last fun _ => hpure _
    · exact .of_last fun _ => hpure _
    · exact hpure first
  | property =>
    refine .of_last fun property => .of_last fun x => ?_
    split
    · exact .of_last fun _ => hpure _
    · exact hpure _
  | textIsEmpty => exact .of_last fun _ => hpure _
  | listIsEmpty => exact .of_last fun _ => .of_last fun _ => hpure _
  | _ => exact absurd h Bool.false_ne_true

theorem gives_conditionChain {chain : List (Block Kind)} (h : holdsCondition chain = true) :
    Gives (fun v => ∃ decided, v = .boolean decided) (evaluateChain limit chain) := by
  match chain, h with
  | [b], h =>
    have hb : Gives (fun v => ∃ decided, v = .boolean decided) (b.evaluate limit) := by
      rw [Block.evaluate_eq]
      exact gives_condition h
    exact hb.bind fun v hv => .of_last fun _ => .pure hv

/-! ### Values -/

section

variable {c : Context Value} {b : Block Kind}

theorem mirrors_kind (hvalue : b.kind.isValue = true) (hshared : b.Shared names)
    (hslots : ∀ s ∈ b.values,
      Mirrors c (Computes names c) (evaluateChain limit s.chain) (compileExpression s.chain)) :
    Mirrors c (Code.Denotes names c.scopes) (b.kind.evaluate limit (b.runParts limit))
      (b.kind.compile b.codeParts) := by
  cases hk : b.kind with
  | boolean => exact .lift fun _ _ => .pure fun _ _ => rfl
  | null => exact .pure fun _ _ => rfl
  | not => exact mirrors_not hslots
  | compare => exact mirrors_compare hslots
  | junction =>
    refine mirrors_junction fun s hs hname => ⟨hslots s hs, gives_conditionChain ?_⟩
    exact hshared.operands hk s hs hname
  | ternary => exact mirrors_ternary hslots
  | number => exact .lift fun _ _ => .lift fun _ _ => .pure fun _ _ => rfl
  | arithmetic => exact mirrors_arithmetic hslots
  | function => exact mirrors_function hslots
  | round => exact mirrors_round hslots
  | constant => exact .lift fun x _ => .pure (Denotes.num x)
  | property => exact mirrors_property hslots
  | modulo => exact mirrors_modulo hslots
  | constrain => exact mirrors_constrain hslots
  | text => exact .lift fun _ _ => .pure fun _ _ => rfl
  | join => exact mirrors_join hslots
  | textLength => exact mirrors_textLength hslots
  | textIsEmpty => exact mirrors_textIsEmpty hslots
  | changeCase => exact mirrors_changeCase hslots
  | trim => exact mirrors_trim hslots
  | get =>
    refine .lift fun name hname => ?_
    -- a name without a binding would be null in a run, but undefined in the program
    have hbound := hshared.bound name (Parts.field_eq_ok.1 hname)
    intro v c₁ κ code κ₁ hm hd
    rw [Run.outcome_get] at hm
    obtain ⟨hv, rfl⟩ := Prod.mk.inj hm
    obtain rfl := Except.ok.inj hv
    obtain ⟨rfl, -⟩ := pure_eq_ok.1 hd
    exact ⟨rfl, Denotes.get hbound⟩
  | emptyList => exact .pure (Denotes.list .nil)
  | createList => exact mirrors_createList hslots
  | repeatItem => exact mirrors_repeatItem hslots
  | listLength => exact mirrors_listLength hslots
  | listIsEmpty => exact mirrors_listIsEmpty hslots
  | _ =>
    rw [hk] at hvalue
    exact absurd hvalue Bool.false_ne_true

end

theorem mirrors_evaluateChain {chain : List (Block Kind)} (c : Context Value)
    (hshared : Block.AllOf (Block.Shared names) chain) (hvalue : holdsValue chain = true) :
    Mirrors c (Computes names c) (evaluateChain limit chain) (compileExpression chain) := by
  revert hshared hvalue
  refine Block.chain_induction
    (P := fun b => b.All (Block.Shared names) → b.kind.isValue = true →
      Mirrors c (Code.Denotes names c.scopes) (b.evaluate limit) b.compile)
    (Q := fun chain => Block.AllOf (Block.Shared names) chain → holdsValue chain = true →
      Mirrors c (Computes names c) (evaluateChain limit chain) (compileExpression chain))
    ?_ ?_ ?_ chain
  · intro b hvalues _ hall hkind
    obtain ⟨hb, hslots, -⟩ := Block.all_iff.1 hall
    rw [Block.evaluate_eq, Block.compile_eq]
    refine mirrors_kind hkind hb fun s hs => ?_
    exact hvalues s hs (hslots s hs) (hb.tame.values s hs)
  · exact fun _ _ => .pure fun _ _ => rfl
  · intro b rest hb _ hall hvalue
    match rest, hvalue with
    | [], hkind =>
      have hrun : evaluateChain limit [b] = b.evaluate limit >>= pure := rfl
      rw [hrun]
      refine (hb hall.1 hkind).bind fun v code hcode => ?_
      cases code with
      | expression e => exact .pure hcode
      | statements body => exact absurd hcode id

end Blockwork
