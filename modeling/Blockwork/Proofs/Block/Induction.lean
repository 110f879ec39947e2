import Blockwork.Proofs.Traversal

/-! Induction over blocks and chains, and properties that all blocks of a tree have. -/

namespace Blockwork

variable {κ : Type}

theorem Block.sizeOf_chain_lt {b : Block κ} {s : Socket κ}
    (hs : s ∈ b.values ∨ s ∈ b.statements) : sizeOf s.chain < sizeOf b := by
  have hchain : sizeOf s.chain < sizeOf s := by
    cases s
    simp only [Socket.mk.sizeOf_spec]
    omega
  have hblock : sizeOf b.values < sizeOf b ∧ sizeOf b.statements < sizeOf b := by
    cases b
    simp only [Block.mk.sizeOf_spec]
    omega
  obtain hs | hs := hs <;> have := List.sizeOf_lt_of_mem hs <;> omega

/-- A property of chains follows from one of blocks that all their slots support. -/
theorem Block.chain_induction {P : Block κ → Prop} {Q : List (Block κ) → Prop}
    (block : ∀ b : Block κ, (∀ s ∈ b.values, Q s.chain) → (∀ s ∈ b.statements, Q s.chain) → P b)
    (nil : Q []) (cons : ∀ b rest, P b → Q rest → Q (b :: rest)) : ∀ chain : List (Block κ), Q chain
  | [] => nil
  | b :: rest =>
    have hsockets := fun s (_ : s ∈ b.values ∨ s ∈ b.statements) =>
      Block.chain_induction block nil cons s.chain
    cons b rest (block b (fun s hs => hsockets s (.inl hs)) fun s hs => hsockets s (.inr hs))
      (Block.chain_induction block nil cons rest)
termination_by chain => sizeOf chain
decreasing_by
  · have := Block.sizeOf_chain_lt ‹s ∈ b.values ∨ s ∈ b.statements›
    simp only [List.cons.sizeOf_spec]
    omega
  · simp only [List.cons.sizeOf_spec]
    omega

/-! ### All blocks of a tree -/

mutual

def Block.All (P : Block κ → Prop) : Block κ → Prop
  | ⟨kind, tag, id, fields, values, statements, mutations, comments⟩ =>
    P ⟨kind, tag, id, fields, values, statements, mutations, comments⟩ ∧
      Socket.All P values ∧ Socket.All P statements

def Socket.All (P : Block κ → Prop) : List (Socket κ) → Prop
  | [] => True
  | ⟨_, chain⟩ :: rest => Block.AllOf P chain ∧ Socket.All P rest

/-- All blocks of the chain and all blocks below them have the property. -/
def Block.AllOf (P : Block κ → Prop) : List (Block κ) → Prop
  | [] => True
  | b :: rest => b.All P ∧ Block.AllOf P rest

end

variable {P : Block κ → Prop}

theorem Socket.all_iff {sockets : List (Socket κ)} :
    Socket.All P sockets ↔ ∀ s ∈ sockets, Block.AllOf P s.chain := by
  induction sockets with
  | nil => simp [Socket.All]
  | cons s rest ih =>
    obtain ⟨name, chain⟩ := s
    rw [Socket.All, ih, List.forall_mem_cons]

theorem Block.all_iff {b : Block κ} :
    b.All P ↔ P b ∧ (∀ s ∈ b.values, Block.AllOf P s.chain) ∧
      ∀ s ∈ b.statements, Block.AllOf P s.chain := by
  cases b
  rw [Block.All, Socket.all_iff, Socket.all_iff]

theorem Block.allOf_of_forall (h : ∀ b, P b) (chain : List (Block κ)) : Block.AllOf P chain := by
  refine Block.chain_induction (P := fun b => b.All P) ?_ trivial ?_ chain
  · exact fun b hvalues hstatements => Block.all_iff.2 ⟨h b, hvalues, hstatements⟩
  · exact fun b rest hb hrest => ⟨hb, hrest⟩

theorem Block.AllOf.mono {Q : Block κ → Prop} (h : ∀ b, P b → Q b) {chain : List (Block κ)}
    (hchain : Block.AllOf P chain) : Block.AllOf Q chain := by
  revert hchain
  refine Block.chain_induction (P := fun b => b.All P → b.All Q)
    (Q := fun chain => Block.AllOf P chain → Block.AllOf Q chain) ?_ ?_ ?_ chain
  · intro b hvalues hstatements hall
    obtain ⟨hb, hv, hs⟩ := Block.all_iff.1 hall
    exact Block.all_iff.2 ⟨h b hb, fun s hmem => hvalues s hmem (hv s hmem),
      fun s hmem => hstatements s hmem (hs s hmem)⟩
  · exact fun _ => trivial
  · exact fun b rest hb hrest hall => ⟨hb hall.1, hrest hall.2⟩

section

variable [DecidablePred P]

mutual

def Block.decideAll : (b : Block κ) → Decidable (b.All P)
  | ⟨kind, tag, id, fields, values, statements, mutations, comments⟩ =>
    have := Socket.decideAll values
    have := Socket.decideAll statements
    inferInstanceAs (Decidable (P ⟨kind, tag, id, fields, values, statements, mutations, comments⟩ ∧
      Socket.All P values ∧ Socket.All P statements))

def Socket.decideAll : (sockets : List (Socket κ)) → Decidable (Socket.All P sockets)
  | [] => .isTrue trivial
  | ⟨_, chain⟩ :: rest =>
    have := Block.decideAllOf chain
    have := Socket.decideAll rest
    inferInstanceAs (Decidable (Block.AllOf P chain ∧ Socket.All P rest))

def Block.decideAllOf : (chain : List (Block κ)) → Decidable (Block.AllOf P chain)
  | [] => .isTrue trivial
  | b :: rest =>
    have := Block.decideAll b
    have := Block.decideAllOf rest
    inferInstanceAs (Decidable (b.All P ∧ Block.AllOf P rest))

end

instance (chain : List (Block κ)) : Decidable (Block.AllOf P chain) := Block.decideAllOf chain

end

/-! ### The settings of a block -/

theorem mem_of_lookup {α : Type} {es : List (String × α)} {name : String} {a : α}
    (h : es.lookup name = some a) : (name, a) ∈ es := by
  obtain ⟨before, after, rfl, -⟩ := List.lookup_eq_some_iff.1 h
  simp

theorem Parts.field_eq_ok {α : Type} {p : Parts α} {name text : String} :
    p.field name = .ok text ↔ p.fields.get? name = some text := by
  unfold Parts.field
  split <;> simp_all

theorem Parts.option_eq_ok {α β : Type} {p : Parts α} {name : String}
    {options : List (String × β)} {choice : β} :
    p.option name options = .ok choice ↔
      ∃ text, p.fields.get? name = some text ∧ options.lookup text = some choice := by
  unfold Parts.option Parts.field
  cases p.fields.get? name with
  | none => simp [bind, Except.bind]
  | some text =>
    cases hlookup : options.lookup text <;> simp [bind, Except.bind, hlookup]

/-! ### The slots of a block -/

section

variable [Behaviour κ] (limit : Nat)

theorem Block.evaluate_eq (b : Block κ) :
    b.evaluate limit = Behaviour.evaluate limit (b.runParts limit) b.kind := by
  cases b
  rfl

theorem Block.compile_eq (b : Block κ) : b.compile = Behaviour.compile b.codeParts b.kind := by
  cases b
  rfl

theorem evaluateSockets_eq (sockets : List (Socket κ)) :
    evaluateSockets limit sockets =
      sockets.map fun s => (s.name, ⟨!s.chain.isEmpty, evaluateChain limit s.chain⟩) := by
  induction sockets with
  | nil => rfl
  | cons s rest ih =>
    obtain ⟨name, chain⟩ := s
    rw [List.map_cons, ← ih]
    rfl

theorem Block.values_runParts (b : Block κ) : (b.runParts limit).values =
    b.values.map fun s => (s.name, ⟨!s.chain.isEmpty, evaluateChain limit s.chain⟩) :=
  evaluateSockets_eq limit b.values

theorem Block.statements_runParts (b : Block κ) : (b.runParts limit).statements =
    b.statements.map fun s => (s.name, ⟨!s.chain.isEmpty, evaluateChain limit s.chain⟩) :=
  evaluateSockets_eq limit b.statements

theorem compileSockets_eq (sockets : List (Socket κ)) :
    compileSockets sockets = sockets.map fun s =>
      (s.name, ⟨!s.chain.isEmpty, ⟨compileExpression s.chain, compileChain s.chain⟩⟩) := by
  induction sockets with
  | nil => rfl
  | cons s rest ih =>
    obtain ⟨name, chain⟩ := s
    rw [List.map_cons, ← ih]
    rfl

theorem Block.values_codeParts (b : Block κ) : b.codeParts.values = b.values.map fun s =>
    (s.name, ⟨!s.chain.isEmpty, ⟨compileExpression s.chain, compileChain s.chain⟩⟩) :=
  compileSockets_eq b.values

theorem Block.statements_codeParts (b : Block κ) : b.codeParts.statements = b.statements.map fun s =>
    (s.name, ⟨!s.chain.isEmpty, ⟨compileExpression s.chain, compileChain s.chain⟩⟩) :=
  compileSockets_eq b.statements

end

end Blockwork
