import Blockwork.Proofs.Workspace.Building

/-! What a workspace has of its graph. Every chain of blocks mirrors a chain of entries, one for one and
in order: first the chains that bind the declared variables, then those of the graph. So a workspace
has as many blocks as its graph has reachable entries, and two more for each variable. -/

namespace Blockwork

/-! ### Mirrored entries -/

/-- The settings of a member of a mutation, each with its domain and its name: those of a group under
its key, or one setting of the plain domain. -/
def settingsOf : String × Json → List (String × String × Json)
  | (key, .object members) => members.map fun member => (key, member)
  | (key, value) => [(plainDomain, key, value)]

def Mutation.IsOf (setting : String × String × Json) (m : Mutation) : Prop :=
  m.domain = setting.1 ∧ m.name = setting.2.1 ∧ MutationText setting.2.2 m.value

section

variable {κ : Type} (registry : Registry κ) (declarations : List Declaration)

mutual

/-- The block has the kind under the type of the entry and all that the entry holds, in its order. -/
inductive Entry.Becomes : Entry → Block κ → Prop
  | intro {e : Entry} {b : Block κ}
      (kind : registry.kinds.get? e.kind = some b.kind) (tag : b.tag = e.kind) (id : b.id = e.id)
      (fields : List.Forall₂ (fun field text => text.1 = field.1 ∧
        SettingText declarations field.2 text.2) e.fields b.fields)
      (values : SlotsBecome e.inputs b.values)
      (statements : SlotsBecome e.statements b.statements)
      (mutations : List.Forall₂ Mutation.IsOf (e.mutation.flatMap settingsOf) b.mutations)
      (comments : b.comments = e.comment.toList) : Entry.Becomes e b

inductive SlotsBecome : List Slot → List (Socket κ) → Prop
  | nil : SlotsBecome [] []
  | cons {s : Slot} {socket : Socket κ} {slots : List Slot} {sockets : List (Socket κ)}
      (name : socket.name = s.name) (chain : ChainBecomes s.payload socket.chain)
      (rest : SlotsBecome slots sockets) : SlotsBecome (s :: slots) (socket :: sockets)

inductive ChainBecomes : List Entry → List (Block κ) → Prop
  | nil : ChainBecomes [] []
  | cons {e : Entry} {b : Block κ} {chain : List Entry} {blocks : List (Block κ)}
      (first : Entry.Becomes e b) (rest : ChainBecomes chain blocks) :
      ChainBecomes (e :: chain) (b :: blocks)

end

end

section

variable {κ : Type} {registry : Registry κ} {declarations : List Declaration}

theorem mutationsOf_settings (mutation : Entries Json) :
    List.Forall₂ Mutation.IsOf (mutation.flatMap settingsOf) (mutationsOf mutation) := by
  induction mutation with
  | nil => exact .nil
  | cons member rest ih =>
    obtain ⟨key, value⟩ := member
    rw [List.flatMap_cons]
    cases value with
    | object members =>
      refine List.rel_append ?_ ih
      rw [settingsOf, List.forall₂_map_left_iff, List.forall₂_map_right_iff, List.forall₂_same]
      exact fun member _ => ⟨rfl, rfl, mutationText_text _⟩
    | _ => exact .cons ⟨rfl, rfl, mutationText_text _⟩ ih

theorem slotsBecome_of_made {slots : List Slot} {sockets : List (Socket κ)}
    (h : ∀ s ∈ slots, ∀ blocks,
      buildChain registry (variableNames declarations) s.payload = .ok blocks →
        ChainBecomes registry declarations s.payload blocks)
    (hmade : List.Forall₂ (Socket.MadeOf registry (variableNames declarations)) slots sockets) :
    SlotsBecome registry declarations slots sockets := by
  induction hmade with
  | nil => exact .nil
  | cons hs _ ih =>
    rw [List.forall_mem_cons] at h
    exact .cons hs.1 (h.1 _ hs.2) (ih h.2)

theorem chainBecomes_of_buildChain (chain : List Entry) : ∀ blocks : List (Block κ),
    buildChain registry (variableNames declarations) chain = .ok blocks →
      ChainBecomes registry declarations chain blocks := by
  refine Entry.payload_induction
    (P := fun e => ∀ b, buildBlock registry (variableNames declarations) e = .ok b →
      e.Becomes registry declarations b)
    (Q := fun chain => ∀ blocks,
      buildChain registry (variableNames declarations) chain = .ok blocks →
        ChainBecomes registry declarations chain blocks)
    ?entry ?nil ?cons chain
  case entry =>
    intro e hslots b hb
    obtain ⟨-, hkind, hfields, ⟨-, hvalues⟩, ⟨-, hstatements⟩, htag, hid, hmutations, hcomments⟩ :=
      buildBlock_eq_ok.1 hb
    have htexts := fieldTexts_eq_ok.1 hfields
    simp only [fieldText_eq_ok] at htexts
    exact .intro hkind htag hid htexts
      (slotsBecome_of_made (fun s hs => hslots s (List.mem_append_left _ hs)) hvalues)
      (slotsBecome_of_made (fun s hs => hslots s (List.mem_append_right _ hs)) hstatements)
      (hmutations ▸ mutationsOf_settings e.mutation) hcomments
  case nil =>
    intro blocks h
    cases h
    exact .nil
  case cons =>
    intro e rest he hrest blocks h
    obtain ⟨b, blocks, hb, hblocks, rfl⟩ := List.forall₂_cons_left_iff.1 (buildChain_eq_ok.1 h)
    exact .cons (he b hb) (hrest blocks (buildChain_eq_ok.2 hblocks))

end

/-! ### The number of blocks -/

section

variable {κ : Type}

mutual

def Block.size : Block κ → Nat
  | { values, statements, .. } => 1 + socketsSize values + socketsSize statements

def socketsSize : List (Socket κ) → Nat
  | [] => 0
  | ⟨_, chain⟩ :: rest => blocksSize chain + socketsSize rest

def blocksSize : List (Block κ) → Nat
  | [] => 0
  | b :: rest => b.size + blocksSize rest

end

def Workspace.blockCount (w : Workspace κ) : Nat := (w.chains.map blocksSize).sum

theorem socketsSize_cons (socket : Socket κ) (rest : List (Socket κ)) :
    socketsSize (socket :: rest) = blocksSize socket.chain + socketsSize rest := by
  cases socket
  rfl

variable {registry : Registry κ} {declarations : List Declaration}

theorem socketsSize_of_slotsBecome {slots : List Slot} {sockets : List (Socket κ)}
    (h : ∀ s ∈ slots, ∀ blocks : List (Block κ),
      ChainBecomes registry declarations s.payload blocks →
        blocksSize blocks = (chainReached s.payload).length)
    (hslots : SlotsBecome registry declarations slots sockets) :
    socketsSize sockets = (slots.flatMap fun s => chainReached s.payload).length := by
  induction slots generalizing sockets with
  | nil =>
    cases hslots
    rfl
  | cons s rest ih =>
    obtain - | ⟨-, hchain, hrest⟩ := hslots
    rw [List.forall_mem_cons] at h
    rw [socketsSize_cons, List.flatMap_cons, List.length_append, ← h.1 _ hchain, ← ih h.2 hrest]

theorem blocksSize_of_chainBecomes (chain : List Entry) : ∀ blocks : List (Block κ),
    ChainBecomes registry declarations chain blocks →
      blocksSize blocks = (chainReached chain).length := by
  refine Entry.payload_induction
    (P := fun e => ∀ b : Block κ, e.Becomes registry declarations b → b.size = e.reached.length)
    (Q := fun chain => ∀ blocks : List (Block κ), ChainBecomes registry declarations chain blocks →
      blocksSize blocks = (chainReached chain).length)
    ?entry ?nil ?cons chain
  case entry =>
    rintro e hslots b ⟨-, -, -, -, hvalues, hstatements, -, -⟩
    have hv := socketsSize_of_slotsBecome (fun s hs => hslots s (List.mem_append_left _ hs)) hvalues
    have hs := socketsSize_of_slotsBecome (fun s hs => hslots s (List.mem_append_right _ hs))
      hstatements
    rw [e.reached_eq, Entry.slots, List.flatMap_append, List.length_cons, List.length_append, ← hv,
      ← hs, Nat.add_comm, ← Nat.add_assoc]
    cases b
    rfl
  case nil =>
    intro blocks h
    cases h
    rfl
  case cons =>
    intro e rest he hrest blocks h
    obtain - | ⟨hfirst, hothers⟩ := h
    have hreached : chainReached (e :: rest) = e.reached ++ chainReached rest := rfl
    rw [hreached, List.length_append, ← he _ hfirst, ← hrest _ hothers]
    rfl

theorem blockCount_of_chainsBecome {chains : List (List Entry)} {w : Workspace κ}
    (h : List.Forall₂ (ChainBecomes registry declarations) chains w.chains) :
    w.blockCount = (chains.flatMap chainReached).length := by
  unfold Workspace.blockCount
  -- The induction is on the pairs of chains, which the workspace itself would fix.
  generalize w.chains = blocks at h ⊢
  induction h with
  | nil => rfl
  | cons hchain _ ih =>
    rw [List.map_cons, List.sum_cons, List.flatMap_cons, List.length_append,
      blocksSize_of_chainBecomes _ _ hchain, ih]

end

theorem declared_reached (declarations : List Declaration) :
    ((declarations.map Declaration.chain).flatMap chainReached).length = 2 * declarations.length := by
  induction declarations with
  | nil => rfl
  | cons d rest ih =>
    have hd : (chainReached d.chain).length = 2 := rfl
    rw [List.map_cons, List.flatMap_cons, List.length_append, List.length_cons, ih, hd]
    omega

/-- A workspace has the chains of its declared variables and then those of its graph, each mirrored. It
has all blocks of the graph exactly when no reachable slot hides a shadow behind a block. -/
theorem ofGraph_mirrors_graph {κ : Type} {registry : Registry κ} {g : Graph} {w : Workspace κ}
    (h : Workspace.ofGraph registry g = .ok w) :
    w.chains.length = g.declarations.length + g.blocks.length ∧
      List.Forall₂ (ChainBecomes registry g.declarations)
        (g.declarations.map Declaration.chain ++ g.blocks) w.chains ∧
      w.blockCount = 2 * g.declarations.length + g.reached.length ∧
      w.blockCount ≤ g.blockCount + 2 * g.declarations.length ∧
      (w.blockCount = g.blockCount + 2 * g.declarations.length ↔
        ∀ e, g.Reaches e → ∀ s ∈ e.slots, ¬(s.block ≠ [] ∧ s.shadow ≠ [])) := by
  have hchains : List.Forall₂ (ChainBecomes registry g.declarations)
      (g.declarations.map Declaration.chain ++ g.blocks) w.chains :=
    (ofGraph_eq_ok.1 h).2.imp fun chain blocks => chainBecomes_of_buildChain chain blocks
  have hcount : w.blockCount = 2 * g.declarations.length + g.reached.length := by
    rw [blockCount_of_chainsBecome hchains, List.flatMap_append, List.length_append,
      declared_reached, Graph.reached]
  have hlength := hchains.length_eq
  rw [List.length_append, List.length_map] at hlength
  refine ⟨hlength.symm, hchains, hcount, ?_, ?_⟩
  · have := g.reached_length_le
    omega
  · rw [← Graph.reached_length_eq_iff, hcount]
    omega

/-- A branch whose condition hides a shadow, and whose only statement sets the declared variable. Its
mutation has a group and a setting without one. -/
def guardedTotal : Graph :=
  { declarations := [{ name := "total", id := some "v" }]
    blocks := [[{
      kind := "controls_if"
      id := "b"
      inputs := [{
        name := "IF0"
        block := [{ kind := "logic_boolean", id := "c", fields := [("BOOL", .bool true)] }]
        shadow := [{ kind := "logic_boolean", id := "d" }] }]
      statements := [{
        name := "DO0"
        block := [{
          kind := "variables_set"
          id := "s"
          fields := [("VAR", .object [("id", .string "v")])]
          inputs := [{
            name := "VALUE"
            shadow := [{ kind := "math_number", id := "n", fields := [("NUM", .int 3)] }] }] }] }]
      mutation := [("counts", .object [("elseif", .int 0), ("else", .null)]),
        ("note", .array [.string "a", .bool true])] }]] }

theorem guardedTotal_mirrors_graph : ∃ w : Workspace Kind,
    Workspace.ofGraph (Registry.standard id) guardedTotal = .ok w ∧ w.chains.length = 2 ∧
      List.Forall₂ (ChainBecomes (Registry.standard id) guardedTotal.declarations)
        (guardedTotal.declarations.map Declaration.chain ++ guardedTotal.blocks) w.chains ∧
      (w.chains.flatten.flatMap Block.mutations = [⟨"counts", "elseif", "0"⟩, ⟨"counts", "else", ""⟩,
        ⟨"mutation", "note", "[\"a\",true]"⟩]) ∧
      (w.chains.flatten.flatMap fun b => b.statements.flatMap fun socket =>
        socket.chain.flatMap Block.fields) = [("VAR", "total")] ∧
      w.blockCount = 6 ∧ guardedTotal.blockCount + 2 = 7 ∧
      ¬∀ e, guardedTotal.Reaches e → ∀ s ∈ e.slots, ¬(s.block ≠ [] ∧ s.shadow ≠ []) := by
  have hbuilt : (Workspace.ofGraph (Registry.standard id : Registry Kind) guardedTotal).toOption.map
      (fun w => (w.chains.flatten.flatMap Block.mutations,
        w.chains.flatten.flatMap fun b => b.statements.flatMap fun socket =>
          socket.chain.flatMap Block.fields)) =
      some ([⟨"counts", "elseif", "0"⟩, ⟨"counts", "else", ""⟩,
        ⟨"mutation", "note", "[\"a\",true]"⟩], [("VAR", "total")]) := by decide +kernel
  cases h : Workspace.ofGraph (Registry.standard id : Registry Kind) guardedTotal with
  | error e =>
    rw [h] at hbuilt
    cases hbuilt
  | ok w =>
    rw [h] at hbuilt
    obtain ⟨hmutations, hfields⟩ := Prod.mk.inj (Option.some.inj hbuilt)
    obtain ⟨hlength, hchains, hcount, -, hall⟩ := ofGraph_mirrors_graph h
    have hsix : w.blockCount = 6 := hcount
    refine ⟨w, rfl, hlength, hchains, hmutations, hfields, hsix, rfl, fun hnone => ?_⟩
    exact absurd (hsix.symm.trans (hall.2 hnone)) (by decide)

end Blockwork
