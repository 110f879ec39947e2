import Blockwork.Proofs.Workspace.Building

/-! Which graphs are accepted. A workspace is built from a graph exactly when its declarations and all
its reachable entries are well formed, so nothing in a hidden shadow can be in the way; without the
hidden shadows the graph becomes the same workspace. -/

namespace Blockwork

/-! ### Well-formed graphs -/

/-- A setting is a literal, or a reference to a variable: by its name, or else by the id of a declared
variable. -/
def Json.IsSetting (declarations : List Declaration) : Json → Prop
  | .string _ | .int _ | .float _ | .bool _ => True
  | .object members => (∃ name, members.lookup "name" = some (.string name)) ∨
      ∃ id, members.lookup "id" = some (.string id) ∧ ∃ d ∈ declarations, d.id = some id
  | .null | .array _ => False

section

variable {κ : Type} (registry : Registry κ)

structure Entry.WellFormed (declarations : List Declaration) (e : Entry) : Prop where
  typed : e.kind ≠ ""
  registered : registry.contains e.kind
  settings : ∀ field ∈ e.fields, field.2.IsSetting declarations
  inputs : Named e.inputs
  statements : Named e.statements

structure Graph.WellFormed (g : Graph) : Prop where
  named : ∀ d ∈ g.declarations, d.name ≠ ""
  bound : g.declarations ≠ [] →
    registry.contains "variables_set" ∧ registry.contains "variables_get"
  entries : ∀ e, g.Reaches e → e.WellFormed registry g.declarations

end

variable {κ : Type} {registry : Registry κ} {declarations : List Declaration}

theorem Registry.contains_iff {tag : String} :
    registry.contains tag ↔ ∃ kind, registry.kinds.get? tag = some kind := by
  rw [Registry.contains, Entries.contains_iff, ← Option.ne_none_iff_exists', ne_eq,
    Entries.get?_eq_none, not_not]

theorem isSetting_iff {j : Json} :
    j.IsSetting declarations ↔ ∃ text, fieldText (variableNames declarations) j = .ok text := by
  simp only [fieldText_eq_ok]
  constructor
  · intro h
    cases j with
    | null | array => exact h.elim
    | string s => exact ⟨_, .text s⟩
    | int n => exact ⟨_, .int n⟩
    | float x => exact ⟨_, .float x⟩
    | bool b => cases b <;> exact ⟨_, by constructor⟩
    | object members =>
      by_cases hname : ∃ name, members.lookup "name" = some (.string name)
      · obtain ⟨name, hname⟩ := hname
        exact ⟨name, .named hname⟩
      · obtain ⟨id, hid, hd⟩ := h.resolve_left hname
        obtain ⟨d, hd⟩ := declaredAs_isSome.2 hd
        exact ⟨d.name, .declared (not_exists.1 hname) hid hd⟩
  · rintro ⟨text, h⟩
    cases h with
    | named hname => exact .inl ⟨_, hname⟩
    | declared _ hid hd => exact .inr ⟨_, hid, declaredAs_isSome.1 ⟨_, hd⟩⟩
    | _ => trivial

/-! ### Building succeeds -/

theorem fieldTexts_succeed_iff {kind id : String} {fields : Entries Json} :
    (∃ texts, fieldTexts (variableNames declarations) kind id fields = .ok texts) ↔
      ∀ field ∈ fields, field.2.IsSetting declarations := by
  simp only [fieldTexts_eq_ok, exists_forall₂_iff, isSetting_iff]
  refine forall₂_congr fun field _ => ?_
  constructor
  · rintro ⟨text, -, h⟩
    exact ⟨text.2, h⟩
  · rintro ⟨text, h⟩
    exact ⟨(field.1, text), rfl, h⟩

theorem sockets_made_iff {slots : List Slot} :
    (∃ sockets, List.Forall₂ (Socket.MadeOf registry (variableNames declarations)) slots sockets) ↔
      ∀ s ∈ slots, ∃ blocks,
        buildChain registry (variableNames declarations) s.payload = .ok blocks := by
  rw [exists_forall₂_iff]
  refine forall₂_congr fun s _ => ?_
  constructor
  · rintro ⟨socket, -, h⟩
    exact ⟨socket.chain, h⟩
  · rintro ⟨blocks, h⟩
    exact ⟨⟨s.name, blocks⟩, rfl, h⟩

theorem buildBlock_succeeds_iff {e : Entry} :
    (∃ b, buildBlock registry (variableNames declarations) e = .ok b) ↔
      e.WellFormed registry declarations ∧ ∀ s ∈ e.slots, ∃ blocks,
        buildChain registry (variableNames declarations) s.payload = .ok blocks := by
  rw [Entry.slots, List.forall_mem_append]
  simp only [buildBlock_eq_ok, ← sockets_made_iff]
  constructor
  · rintro ⟨b, htyped, hkind, hfields, ⟨hinputs, hvalues⟩, ⟨hstatements, hbelow⟩, -⟩
    exact ⟨⟨htyped, Registry.contains_iff.2 ⟨_, hkind⟩, fieldTexts_succeed_iff.1 ⟨_, hfields⟩,
      hinputs, hstatements⟩, ⟨_, hvalues⟩, ⟨_, hbelow⟩⟩
  · rintro ⟨h, ⟨values, hvalues⟩, statements, hbelow⟩
    obtain ⟨kind, hkind⟩ := Registry.contains_iff.1 h.registered
    obtain ⟨texts, hfields⟩ := fieldTexts_succeed_iff.2 h.settings
    exact ⟨⟨kind, e.kind, e.id, texts, values, statements, mutationsOf e.mutation,
      e.comment.toList⟩, h.typed, hkind, hfields, ⟨h.inputs, hvalues⟩, ⟨h.statements, hbelow⟩,
      rfl, rfl, rfl, rfl⟩

theorem buildChain_succeeds_iff (chain : List Entry) :
    (∃ blocks, buildChain registry (variableNames declarations) chain = .ok blocks) ↔
      ∀ e ∈ chainReached chain, e.WellFormed registry declarations := by
  refine Entry.payload_induction
    (P := fun e => (∃ b, buildBlock registry (variableNames declarations) e = .ok b) ↔
      ∀ inner ∈ e.reached, inner.WellFormed registry declarations)
    (Q := fun chain =>
      (∃ blocks, buildChain registry (variableNames declarations) chain = .ok blocks) ↔
        ∀ e ∈ chainReached chain, e.WellFormed registry declarations)
    ?entry ?nil ?cons chain
  case entry =>
    intro e hslots
    rw [buildBlock_succeeds_iff, e.reached_eq, List.forall_mem_cons, List.forall_mem_flatMap]
    exact and_congr_right fun _ => forall₂_congr hslots
  case nil => simp [buildChain, chainReached]
  case cons =>
    intro e rest he hrest
    have hreached : chainReached (e :: rest) = e.reached ++ chainReached rest := rfl
    rw [hreached, List.forall_mem_append, ← he, ← hrest]
    simp only [buildChain_eq_ok, exists_forall₂_iff, List.forall_mem_cons]

theorem declared_wellFormed_iff (d : Declaration) :
    (∀ e ∈ chainReached d.chain, e.WellFormed registry declarations) ↔
      registry.contains "variables_set" ∧ registry.contains "variables_get" := by
  have hnamed : Named [] := ⟨by simp, by simp⟩
  have hreached : chainReached d.chain = d.chain ++ d.chain.flatMap fun e =>
      e.inputs.flatMap fun s => s.block := rfl
  rw [hreached, List.forall_mem_append]
  simp only [Declaration.chain, List.flatMap_cons, List.flatMap_nil, List.append_nil,
    List.forall_mem_singleton]
  constructor
  · exact fun ⟨hset, hget⟩ => ⟨hset.registered, hget.registered⟩
  · rintro ⟨hset, hget⟩
    exact ⟨⟨by simp, hset, by simp [Json.IsSetting], ⟨by simp, by simp⟩, hnamed⟩,
      ⟨by simp, hget, by simp [Json.IsSetting], hnamed, hnamed⟩⟩

/-! ### Hidden shadows -/

theorem buildSockets_exposed {names : Entries String} {tag id : String} {slots : List Slot}
    (h : ∀ s ∈ slots, buildChain registry names (chainExposed s.payload) =
      buildChain registry names s.payload) (before : List String) :
    buildSockets registry names tag id before (slotsExposed slots) =
      buildSockets registry names tag id before slots := by
  induction slots generalizing before with
  | nil => rfl
  | cons s rest ih =>
    obtain ⟨shown, hshown, hname, hpayload⟩ := slotsExposed_cons s rest
    rw [hshown, buildSockets_cons, buildSockets_cons, hname, hpayload, h s List.mem_cons_self,
      ih fun t ht => h t (List.mem_cons_of_mem _ ht)]

theorem buildChain_exposed (registry : Registry κ) (names : Entries String) (chain : List Entry) :
    buildChain registry names (chainExposed chain) = buildChain registry names chain := by
  refine Entry.payload_induction
    (P := fun e => buildBlock registry names e.exposed = buildBlock registry names e)
    (Q := fun chain => buildChain registry names (chainExposed chain) =
      buildChain registry names chain)
    ?entry ?nil ?cons chain
  case entry =>
    rintro ⟨kind, id, fields, inputs, statements, comment, mutation⟩ hslots
    have hinputs := fun s hs => hslots s (List.mem_append_left _ hs)
    have hstatements := fun s hs => hslots s (List.mem_append_right _ hs)
    simp only [Entry.exposed, buildBlock, buildSockets_exposed hinputs,
      buildSockets_exposed hstatements]
  case nil => rfl
  case cons =>
    intro e rest he hrest
    simp only [chainExposed, buildChain, he, hrest]

/-! ### Graphs -/

theorem ofGraph_exposed (registry : Registry κ) (g : Graph) :
    Workspace.ofGraph registry g.exposed = Workspace.ofGraph registry g := by
  have hblocks : (g.blocks.map chainExposed).mapM (buildChain registry
      (variableNames g.declarations)) = g.blocks.mapM (buildChain registry
      (variableNames g.declarations)) := by
    rw [List.mapM_map]
    exact congrArg (g.blocks.mapM ·) (funext (buildChain_exposed registry _))
  simp only [Workspace.ofGraph, Graph.exposed, hblocks]

/-- A graph is accepted exactly when it is well formed, and shadows that blocks hide are of no
account. -/
theorem ofGraph_succeeds_iff_wellFormed (registry : Registry κ) (g : Graph) :
    ((∃ w, Workspace.ofGraph registry g = .ok w) ↔ g.WellFormed registry) ∧
      Workspace.ofGraph registry g.exposed = Workspace.ofGraph registry g := by
  refine ⟨?_, ofGraph_exposed registry g⟩
  have hchains : (∃ w, Workspace.ofGraph registry g = .ok w) ↔ (∀ d ∈ g.declarations, d.name ≠ "") ∧
      (∀ d ∈ g.declarations, registry.contains "variables_set" ∧
        registry.contains "variables_get") ∧
      ∀ chain ∈ g.blocks, ∀ e ∈ chainReached chain, e.WellFormed registry g.declarations := by
    have hlist : ∀ chains : List (List Entry),
        (∃ w : Workspace κ, List.Forall₂ (fun chain blocks => buildChain registry
          (variableNames g.declarations) chain = .ok blocks) chains w.chains) ↔
        ∀ chain ∈ chains, ∀ e ∈ chainReached chain, e.WellFormed registry g.declarations := by
      intro chains
      simp only [← buildChain_succeeds_iff, ← exists_forall₂_iff]
      exact ⟨fun ⟨w, h⟩ => ⟨w.chains, h⟩, fun ⟨blocks, h⟩ => ⟨⟨blocks⟩, h⟩⟩
    simp only [ofGraph_eq_ok, exists_and_left, hlist, List.forall_mem_append, List.forall_mem_map,
      declared_wellFormed_iff]
  rw [hchains]
  constructor
  · rintro ⟨hnamed, hbound, hblocks⟩
    refine ⟨hnamed, fun hne => ?_, fun e he => ?_⟩
    · obtain ⟨d, hd⟩ := List.exists_mem_of_ne_nil _ hne
      exact hbound d hd
    · obtain ⟨chain, hchain, he⟩ := List.mem_flatMap.1 (Graph.mem_reached_iff.2 he)
      exact hblocks chain hchain e he
  · intro h
    refine ⟨h.named, fun d hd => h.bound (List.ne_nil_of_mem hd), fun chain hchain e he => ?_⟩
    exact h.entries e (Graph.mem_reached_iff.1 (List.mem_flatMap.2 ⟨chain, hchain, he⟩))

end Blockwork
