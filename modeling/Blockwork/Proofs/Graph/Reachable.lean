import Mathlib
import Blockwork.Graph.Basic

/-! The entries of a graph that take part in its program. A slot is occupied by its block, or by its
shadow where it has none, so a shadow behind a block is hidden with all that it holds. The size of a
graph is the number of its reachable entries and of the entries that are hidden. -/

namespace Blockwork

def Entry.slots (e : Entry) : List Slot := e.inputs ++ e.statements

theorem Entry.sizeOf_payload_lt {e : Entry} {s : Slot} (hs : s ∈ e.slots) :
    sizeOf s.payload < sizeOf e := by
  have hpayload : sizeOf s.payload < sizeOf s := by
    unfold Slot.payload
    cases s
    split <;> simp only [Slot.mk.sizeOf_spec] <;> omega
  have hentry : sizeOf e.inputs < sizeOf e ∧ sizeOf e.statements < sizeOf e := by
    cases e
    simp only [Entry.mk.sizeOf_spec]
    omega
  obtain hs | hs := List.mem_append.1 hs <;> have := List.sizeOf_lt_of_mem hs <;> omega

/-- A property of chains follows from one of entries that the chains in their slots support. -/
theorem Entry.payload_induction {P : Entry → Prop} {Q : List Entry → Prop}
    (entry : ∀ e : Entry, (∀ s ∈ e.slots, Q s.payload) → P e) (nil : Q [])
    (cons : ∀ e rest, P e → Q rest → Q (e :: rest)) : ∀ chain : List Entry, Q chain
  | [] => nil
  | e :: rest =>
    have hslots := fun s (_ : s ∈ e.slots) => Entry.payload_induction entry nil cons s.payload
    cons e rest (entry e hslots) (Entry.payload_induction entry nil cons rest)
termination_by chain => sizeOf chain
decreasing_by
  · have := Entry.sizeOf_payload_lt ‹s ∈ e.slots›
    simp only [List.cons.sizeOf_spec]
    omega
  · simp only [List.cons.sizeOf_spec]
    omega

/-! ### Reachable entries -/

/-- The entries of the chains, and the entries of a chain that occupies a slot of such an entry. -/
inductive Graph.Reaches (g : Graph) : Entry → Prop
  | inChain {chain : List Entry} {e : Entry} (hchain : chain ∈ g.blocks) (he : e ∈ chain) :
    g.Reaches e
  | inSlot {e inner : Entry} {s : Slot} (he : g.Reaches e) (hs : s ∈ e.slots)
      (hinner : inner ∈ s.payload) : g.Reaches inner

mutual

def Entry.reached : Entry → List Entry
  | ⟨kind, id, fields, inputs, statements, comment, mutation⟩ =>
    ⟨kind, id, fields, inputs, statements, comment, mutation⟩ ::
      (slotsReached inputs ++ slotsReached statements)

def slotsReached : List Slot → List Entry
  | [] => []
  | ⟨_, block, shadow⟩ :: rest =>
    (if block.isEmpty then chainReached shadow else chainReached block) ++ slotsReached rest

def chainReached : List Entry → List Entry
  | [] => []
  | e :: rest => e.reached ++ chainReached rest

end

def Graph.reached (g : Graph) : List Entry := g.blocks.flatMap chainReached

theorem slotsReached_cons (s : Slot) (rest : List Slot) :
    slotsReached (s :: rest) = chainReached s.payload ++ slotsReached rest := by
  obtain ⟨name, block, shadow⟩ := s
  cases block <;> rfl

theorem slotsReached_eq (slots : List Slot) :
    slotsReached slots = slots.flatMap fun s => chainReached s.payload := by
  induction slots with
  | nil => rfl
  | cons s rest ih => rw [slotsReached_cons, ih, List.flatMap_cons]

theorem chainReached_eq (chain : List Entry) : chainReached chain = chain.flatMap Entry.reached := by
  induction chain with
  | nil => rfl
  | cons e rest ih => rw [List.flatMap_cons, ← ih]; rfl

theorem Entry.reached_eq (e : Entry) :
    e.reached = e :: e.slots.flatMap fun s => chainReached s.payload := by
  rw [Entry.slots, List.flatMap_append, ← slotsReached_eq, ← slotsReached_eq]
  cases e
  rfl

theorem Entry.mem_reached_self (e : Entry) : e ∈ e.reached := by
  rw [e.reached_eq]
  exact List.mem_cons_self

theorem chainReached_closed (chain : List Entry) : ∀ {e inner : Entry} {s : Slot},
    e ∈ chainReached chain → s ∈ e.slots → inner ∈ s.payload → inner ∈ chainReached chain := by
  refine Entry.payload_induction
    (P := fun top => ∀ {e inner : Entry} {s : Slot}, e ∈ top.reached → s ∈ e.slots →
      inner ∈ s.payload → inner ∈ top.reached)
    (Q := fun chain => ∀ {e inner : Entry} {s : Slot}, e ∈ chainReached chain → s ∈ e.slots →
      inner ∈ s.payload → inner ∈ chainReached chain)
    ?entry ?nil ?cons chain
  case entry =>
    intro top slots e inner s he hs hinner
    rw [top.reached_eq] at he ⊢
    refine List.mem_cons_of_mem _ (List.mem_flatMap.2 ?_)
    rcases List.mem_cons.1 he with rfl | he
    · exact ⟨s, hs, by
        rw [chainReached_eq]
        exact List.mem_flatMap.2 ⟨inner, hinner, inner.mem_reached_self⟩⟩
    · obtain ⟨t, ht, he⟩ := List.mem_flatMap.1 he
      exact ⟨t, ht, slots t ht he hs hinner⟩
  case nil => exact fun he => absurd he List.not_mem_nil
  case cons =>
    intro top rest first others e inner s he hs hinner
    rcases List.mem_append.1 he with he | he
    · exact List.mem_append_left _ (first he hs hinner)
    · exact List.mem_append_right _ (others he hs hinner)

/-- A property of the entries of a chain that is handed down to occupied slots holds of all that the
chain reaches. -/
theorem forall_mem_chainReached {R : Entry → Prop}
    (below : ∀ {e inner : Entry} {s : Slot}, R e → s ∈ e.slots → inner ∈ s.payload → R inner)
    (chain : List Entry) : (∀ e ∈ chain, R e) → ∀ e ∈ chainReached chain, R e := by
  refine Entry.payload_induction (P := fun top => R top → ∀ e ∈ top.reached, R e)
    (Q := fun chain => (∀ e ∈ chain, R e) → ∀ e ∈ chainReached chain, R e)
    ?entry ?nil ?cons chain
  case entry =>
    intro top slots htop e he
    rw [top.reached_eq] at he
    rcases List.mem_cons.1 he with rfl | he
    · exact htop
    · obtain ⟨s, hs, he⟩ := List.mem_flatMap.1 he
      exact slots s hs (fun inner hinner => below htop hs hinner) e he
  case nil => exact fun _ e he => absurd he List.not_mem_nil
  case cons =>
    intro top rest first others h e he
    rcases List.mem_append.1 he with he | he
    · exact first (h top List.mem_cons_self) e he
    · exact others (fun inner hinner => h inner (List.mem_cons_of_mem _ hinner)) e he

theorem Graph.mem_reached_iff {g : Graph} {e : Entry} : e ∈ g.reached ↔ g.Reaches e := by
  constructor
  · intro he
    obtain ⟨chain, hchain, he⟩ := List.mem_flatMap.1 he
    exact forall_mem_chainReached .inSlot chain (fun e he => .inChain hchain he) e he
  · intro he
    induction he with
    | inChain hchain he =>
      rw [reached, List.mem_flatMap]
      exact ⟨_, hchain, by
        rw [chainReached_eq]
        exact List.mem_flatMap.2 ⟨_, he, Entry.mem_reached_self _⟩⟩
    | inSlot _ hs hinner ih =>
      obtain ⟨chain, hchain, he⟩ := List.mem_flatMap.1 ih
      exact List.mem_flatMap.2 ⟨chain, hchain, chainReached_closed chain he hs hinner⟩

/-! ### Hidden entries -/

/-- The number of the entries in a shadow that a block hides. -/
def Slot.hidden (s : Slot) : Nat := if s.block.isEmpty then 0 else chainSize s.shadow

def Entry.hidden (e : Entry) : Nat := (e.slots.map Slot.hidden).sum

theorem Entry.size_pos (e : Entry) : 0 < e.size := by
  cases e
  simp only [Entry.size]
  omega

theorem chainSize_eq_zero {chain : List Entry} : chainSize chain = 0 ↔ chain = [] := by
  cases chain with
  | nil => simp [chainSize]
  | cons e rest =>
    have := e.size_pos
    simp only [chainSize, reduceCtorEq, iff_false]
    omega

theorem Slot.hidden_eq_zero {s : Slot} : s.hidden = 0 ↔ ¬(s.block ≠ [] ∧ s.shadow ≠ []) := by
  unfold Slot.hidden
  cases hblock : s.block with
  | nil => simp
  | cons e rest => simp [chainSize_eq_zero]

theorem Slot.size_eq (s : Slot) : chainSize s.block + chainSize s.shadow =
    chainSize s.payload + s.hidden := by
  unfold Slot.payload Slot.hidden
  cases s.block with
  | nil => simp [chainSize]
  | cons e rest => simp

theorem Entry.size_eq (e : Entry) :
    e.size = 1 + (e.slots.map fun s => chainSize s.block + chainSize s.shadow).sum := by
  have hslots : ∀ slots : List Slot,
      slotsSize slots = (slots.map fun s => chainSize s.block + chainSize s.shadow).sum := by
    intro slots
    induction slots with
    | nil => rfl
    | cons s rest ih =>
      obtain ⟨name, block, shadow⟩ := s
      rw [List.map_cons, List.sum_cons, ← ih]
      rfl
  rw [Entry.slots, List.map_append, List.sum_append, ← hslots, ← hslots, ← Nat.add_assoc]
  cases e
  rfl

theorem chainSize_eq (chain : List Entry) : chainSize chain =
    (chainReached chain).length + ((chainReached chain).map Entry.hidden).sum := by
  refine Entry.payload_induction
    (P := fun e => e.size = e.reached.length + (e.reached.map Entry.hidden).sum)
    (Q := fun chain => chainSize chain =
      (chainReached chain).length + ((chainReached chain).map Entry.hidden).sum)
    ?entry ?nil ?cons chain
  case entry =>
    intro e hpayload
    have hslots : ∀ slots : List Slot, (∀ s ∈ slots, s ∈ e.slots) →
        (slots.map fun s => chainSize s.block + chainSize s.shadow).sum =
          (slots.flatMap fun s => chainReached s.payload).length +
          ((slots.flatMap fun s => chainReached s.payload).map Entry.hidden).sum +
          (slots.map Slot.hidden).sum := by
      intro slots hslots
      induction slots with
      | nil => rfl
      | cons s rest ih =>
        have hs := hpayload s (hslots s List.mem_cons_self)
        have hrest := ih fun t ht => hslots t (List.mem_cons_of_mem _ ht)
        simp only [List.map_cons, List.sum_cons, List.flatMap_cons, List.length_append,
          List.map_append, List.sum_append, s.size_eq]
        omega
    have := hslots e.slots fun _ h => h
    rw [e.size_eq, e.reached_eq, List.length_cons, List.map_cons, List.sum_cons, Entry.hidden]
    omega
  case nil => rfl
  case cons =>
    intro e rest he hrest
    have hsize : chainSize (e :: rest) = e.size + chainSize rest := rfl
    have hreached : chainReached (e :: rest) = e.reached ++ chainReached rest := rfl
    rw [hsize, hreached, List.length_append, List.map_append, List.sum_append]
    omega

theorem Graph.blockCount_eq (g : Graph) :
    g.blockCount = g.reached.length + (g.reached.map Entry.hidden).sum := by
  obtain ⟨blocks, declarations⟩ := g
  rw [Graph.blockCount, Graph.reached]
  induction blocks with
  | nil => rfl
  | cons chain rest ih =>
    have hsize : chainsSize (chain :: rest) = chainSize chain + chainsSize rest := rfl
    have hchain := chainSize_eq chain
    simp only at ih
    simp only [hsize, List.flatMap_cons, List.length_append, List.map_append, List.sum_append]
    omega

theorem Graph.reached_length_le (g : Graph) : g.reached.length ≤ g.blockCount := by
  rw [g.blockCount_eq]
  exact Nat.le_add_right _ _

/-- All entries are reached exactly when no slot that is reached hides a shadow. -/
theorem Graph.reached_length_eq_iff {g : Graph} : g.reached.length = g.blockCount ↔
    ∀ e, g.Reaches e → ∀ s ∈ e.slots, ¬(s.block ≠ [] ∧ s.shadow ≠ []) := by
  have hsum : g.reached.length = g.blockCount ↔ (g.reached.map Entry.hidden).sum = 0 := by
    rw [g.blockCount_eq]
    omega
  rw [hsum, List.sum_eq_zero_iff_forall_eq_nat, List.forall_mem_map]
  simp only [Graph.mem_reached_iff, ← Slot.hidden_eq_zero]
  refine forall₂_congr fun e _ => ?_
  rw [Entry.hidden, List.sum_eq_zero_iff_forall_eq_nat, List.forall_mem_map]

/-! ### Without hidden shadows -/

mutual

/-- The entry without the shadows that are hidden behind blocks. -/
def Entry.exposed : Entry → Entry
  | ⟨kind, id, fields, inputs, statements, comment, mutation⟩ =>
    ⟨kind, id, fields, slotsExposed inputs, slotsExposed statements, comment, mutation⟩

def slotsExposed : List Slot → List Slot
  | [] => []
  | ⟨name, block, shadow⟩ :: rest =>
    ⟨name, chainExposed block, if block.isEmpty then chainExposed shadow else []⟩ ::
      slotsExposed rest

def chainExposed : List Entry → List Entry
  | [] => []
  | e :: rest => e.exposed :: chainExposed rest

end

def Graph.exposed (g : Graph) : Graph := { g with blocks := g.blocks.map chainExposed }

theorem slotsExposed_cons (s : Slot) (rest : List Slot) : ∃ shown : Slot,
    slotsExposed (s :: rest) = shown :: slotsExposed rest ∧ shown.name = s.name ∧
      shown.payload = chainExposed s.payload := by
  obtain ⟨name, block, shadow⟩ := s
  refine ⟨_, rfl, rfl, ?_⟩
  cases block <;> rfl

end Blockwork
