import Blockwork.Graph.Load
import Blockwork.Proofs.Json.Tree

/-! A graph that is written as JSON is loaded as it was. The members of a record take a draft from its
beginning to the fields of the record: those that are left out are those that the draft fills in. -/

namespace Blockwork

open Json

/-- Settings and mutations of a block at any depth, also of one that is hidden, can be stored. -/
inductive Entry.Storable : Entry → Prop
  | intro {e : Entry} (fields : Json.Storable (.object e.fields))
      (mutation : Json.Storable (.object e.mutation))
      (slots : ∀ s ∈ e.inputs ++ e.statements, ∀ inner ∈ s.block ++ s.shadow, Entry.Storable inner) :
      Entry.Storable e

/-- A stored chain has a first block. -/
def Graph.Storable (g : Graph) : Prop := ∀ chain ∈ g.blocks, chain ≠ [] ∧ ∀ e ∈ chain, e.Storable

/-! ### Records -/

structure Returns {α : Type} (j : Json) (read : Node → Except Fault α) (a : α) : Prop where
  scanned : Scanned j
  read : ∀ node, Node.Holds node j → read node = .ok a

section

variable {α β Draft : Type}

theorem Returns.map {j : Json} {read : Node → Except Fault α} {read' : Node → Except Fault β}
    {a : α} {f : α → β} (h : Returns j read a)
    (hread : ∀ node, Node.Holds node j → read' node = read node >>= fun a => pure (f a)) :
    Returns j read' (f a) := by
  refine ⟨h.scanned, fun node hnode => ?_⟩
  rw [hread node hnode, h.read node hnode]
  rfl

theorem Returns.then {j : Json} {read : Node → Except Fault α} {a : α} (h : Returns j read a)
    (f : α → β) : Returns j (fun node => read node >>= fun a => pure (f a)) (f a) :=
  h.map fun _ _ => rfl

theorem returns_text (s : String) : Returns (.string s) Node.readText s :=
  ⟨(Storable.string s).scanned, fun _ => readText_of_holds⟩

theorem returns_text? (s : String) : Returns (.string s) Node.readText? (some s) :=
  ⟨(Storable.string s).scanned, fun _ => readText?_of_holds⟩

theorem returns_map {members : Entries Json} (h : Json.Storable (.object members)) :
    Returns (.object members) Node.readMap members :=
  ⟨h.scanned, fun _ => readMap_of_holds h⟩

theorem returns_list {json : α → Json} {read : Node → Except Fault α} {as : List α}
    (h : ∀ a ∈ as, Returns (json a) read a) : Returns (.array (as.map json)) (readList read) as := by
  have hitems : ∀ nodes, NodesHold nodes (as.map json) → nodes.mapM read = .ok as := by
    induction as with
    | nil =>
      intro nodes hnodes
      cases hnodes
      rfl
    | cons a as ih =>
      rintro _ (- | ⟨hfirst, hrest⟩)
      rw [List.forall_mem_cons] at h
      rw [List.mapM_cons, h.1.read _ hfirst, ih h.2 _ hrest]
      rfl
  refine ⟨scanned_array (List.forall_mem_map.2 fun a ha => (h a ha).scanned), fun node hnode => ?_⟩
  cases hnode with
  | array hnodes =>
    rw [readList, hitems _ hnodes]
    rfl

inductive Fills (Takes : Draft → String × Json → Draft → Prop) :
    Draft → List (String × Json) → Draft → Prop
  | nil {d : Draft} : Fills Takes d [] d
  | cons {d d' d'' : Draft} {member : String × Json} {members : List (String × Json)}
      (first : Takes d member d') (rest : Fills Takes d' members d'') :
      Fills Takes d (member :: members) d''

namespace Fills

variable {Takes : Draft → String × Json → Draft → Prop} {d d' d'' : Draft}
  {member : String × Json} {members more : List (String × Json)}

theorem append (h : Fills Takes d members d') (h' : Fills Takes d' more d'') :
    Fills Takes d (members ++ more) d'' := by
  induction h with
  | nil => exact h'
  | cons first _ ih => exact .cons first (ih h')

theorem one (h : Takes d member d') : Fills Takes d [member] d' := .cons h .nil

theorem scanned (h : Fills Takes d members d')
    (htakes : ∀ {d member d'}, Takes d member d' → Scanned member.2) :
    ∀ member ∈ members, Scanned member.2 := by
  induction h with
  | nil => simp
  | cons first _ ih => exact List.forall_mem_cons.2 ⟨htakes first, ih⟩

end Fills

def written (as : List α) : Option (List α) := if as.isEmpty then none else some as

theorem written_getD (as : List α) : (written as).getD [] = as := by
  cases as <;> rfl

section

variable {Takes : Draft → String × Json → Draft → Prop} {start d : Draft}
  {members : List (String × Json)}

theorem Fills.thenList (h : Fills Takes start members d) {as : List α} (key : String) (value : Json)
    (set : Draft → Option (List α) → Draft) (hset : set d none = d)
    (htakes : as ≠ [] → Takes d (key, value) (set d (some as))) :
    Fills Takes start (members ++ if as.isEmpty then [] else [(key, value)])
      (set d (written as)) := by
  refine h.append ?_
  cases as with
  | nil =>
    show Fills Takes d [] (set d none)
    rw [hset]
    exact .nil
  | cons a as => exact .one (htakes (List.cons_ne_nil a as))

theorem Fills.thenText (h : Fills Takes start members d) (text : Option String) (key : String)
    (set : Draft → Option (Option String) → Draft) (hset : set d none = d)
    (htakes : ∀ s, Takes d (key, .string s) (set d (some (some s)))) :
    Fills Takes start (members ++ match text with
      | none => []
      | some s => [(key, .string s)]) (set d (text.map some)) := by
  refine h.append ?_
  cases text with
  | none =>
    show Fills Takes d [] (set d none)
    rw [hset]
    exact .nil
  | some s => exact .one (htakes s)

end

end

/-! ### Slots and blocks -/

def EntryTakes (d : EntryDraft) (member : String × Json) (d' : EntryDraft) : Prop :=
  ∃ field, EntryField.ofName? member.1 = some field ∧ d.has field = false ∧
    Returns member.2 (readEntryField d field) d'

def SlotTakes (d : SlotDraft) (member : String × Json) (d' : SlotDraft) : Prop :=
  ∃ field, SlotField.ofName? member.1 = some field ∧ d.has field = false ∧
    Returns member.2 (readSlotField d field) d'

theorem readEntryMembers_of_fills {d d' : EntryDraft} {members : List (String × Json)}
    (h : Fills EntryTakes d members d') {nodes : List Member} (hnodes : MembersHold nodes members)
    (stop : Nat) : readEntryMembers d (.closed stop) nodes =
      d'.finish ⟨.missingField "type", stop⟩ := by
  induction h generalizing nodes with
  | nil =>
    cases hnodes
    rfl
  | cons first _ ih =>
    obtain ⟨field, hname, hhas, hread⟩ := first
    obtain - | ⟨hfirst, hrest⟩ := hnodes
    rw [readEntryMembers]
    simp only [bind, Except.bind, hname]
    show (if _ then _ else readEntryField _ field _ >>= fun d => readEntryMembers d (.closed stop) _) = _
    rw [hhas, hread.read _ hfirst]
    exact ih hrest

theorem readSlotMembers_of_fills {d d' : SlotDraft} {members : List (String × Json)}
    (h : Fills SlotTakes d members d') {nodes : List Member} (hnodes : MembersHold nodes members)
    (stop : Nat) : readSlotMembers d (.closed stop) nodes =
      d'.finish ⟨.missingField "name", stop⟩ := by
  induction h generalizing nodes with
  | nil =>
    cases hnodes
    rfl
  | cons first _ ih =>
    obtain ⟨field, hname, hhas, hread⟩ := first
    obtain - | ⟨hfirst, hrest⟩ := hnodes
    rw [readSlotMembers]
    simp only [bind, Except.bind, hname]
    show (if _ then _ else readSlotField _ field _ >>= fun d => readSlotMembers d (.closed stop) _) = _
    rw [hhas, hread.read _ hfirst]
    exact ih hrest

def Entry.draft (e : Entry) (rest : Option (List Entry)) : EntryDraft where
  kind := some e.kind
  id := some e.id
  fields := written e.fields
  inputs := written e.inputs
  statements := written e.statements
  comment := e.comment.map some
  mutation := written e.mutation
  next := rest

theorem Entry.finish_draft (e : Entry) (rest : List Entry) (missing : Fault) :
    (e.draft (written rest)).finish missing = .ok (e :: rest) := by
  obtain ⟨kind, id, fields, inputs, statements, comment, mutation⟩ := e
  cases comment <;> simp [Entry.draft, EntryDraft.finish, written_getD]

def ChainReturns (chain : List Entry) : Prop :=
  chain ≠ [] → Returns (chainJson chain) readChain chain

theorem exists_object_of_holds {chain : List Entry} (hne : chain ≠ []) {node : Node}
    (h : node.Holds (chainJson chain)) : ∃ start nodes stop, node = .object start nodes (.closed stop) := by
  cases chain with
  | nil => exact absurd rfl hne
  | cons e rest =>
    cases h with
    | object _ => exact ⟨_, _, _, rfl⟩

theorem slotTakes_chain {chain : List Entry} (h : ChainReturns chain) (hne : chain ≠ [])
    (d : SlotDraft) {field : SlotField} (hfield : field = .block ∨ field = .shadow) :
    Returns (chainJson chain) (readSlotField d field) (d.set chain field) := by
  refine (h hne).map (f := fun chain => d.set chain field) fun node hnode => ?_
  obtain ⟨start, nodes, stop, rfl⟩ := exists_object_of_holds hne hnode
  rcases hfield with rfl | rfl <;> rfl

def Slot.members (s : Slot) : List (String × Json) :=
  [("name", .string s.name)] ++ (if s.block.isEmpty then [] else [("block", chainJson s.block)]) ++
    (if s.shadow.isEmpty then [] else [("shadow", chainJson s.shadow)])

theorem fills_slot {s : Slot} (hblock : ChainReturns s.block) (hshadow : ChainReturns s.shadow) :
    Fills SlotTakes {} s.members
      { name := some s.name, block := written s.block, shadow := written s.shadow } := by
  have hname : Returns (.string s.name) (readSlotField {} .name) { name := some s.name } :=
    (returns_text s.name).map (f := fun name => ({ name := some name } : SlotDraft))
      fun node hnode => by cases hnode; rfl
  have hfirst : Fills SlotTakes {} [("name", .string s.name)] { name := some s.name } :=
    .one ⟨.name, rfl, rfl, hname⟩
  have hsecond := hfirst.thenList "block" (chainJson s.block) (fun d block => { d with block }) rfl
    fun hne => ⟨.block, rfl, rfl, slotTakes_chain hblock hne _ (.inl rfl)⟩
  exact hsecond.thenList "shadow" (chainJson s.shadow) (fun d shadow => { d with shadow }) rfl
    fun hne => ⟨.shadow, rfl, rfl, slotTakes_chain hshadow hne _ (.inr rfl)⟩

theorem scanned_of_slotTakes {d d' : SlotDraft} {member : String × Json}
    (h : SlotTakes d member d') : Scanned member.2 := by
  obtain ⟨_, _, _, hreturns⟩ := h
  exact hreturns.scanned

theorem slots_return {slots : List Slot}
    (h : ∀ s ∈ slots, ChainReturns s.block ∧ ChainReturns s.shadow) :
    (∀ item ∈ slotsJson slots, Scanned item) ∧ ∀ nodes, NodesHold nodes (slotsJson slots) →
      ∀ stop, readSlots (.closed stop) nodes = .ok slots := by
  induction slots with
  | nil =>
    refine ⟨fun item hitem => absurd hitem List.not_mem_nil, fun nodes hnodes stop => ?_⟩
    cases hnodes
    rfl
  | cons s rest ih =>
    rw [List.forall_mem_cons] at h
    have hfills := fills_slot h.1.1 h.1.2
    obtain ⟨hscanned, hread⟩ := ih h.2
    have hjson : slotsJson (s :: rest) = .object s.members :: slotsJson rest := by
      cases s
      rfl
    rw [hjson]
    refine ⟨List.forall_mem_cons.2 ⟨scanned_object (hfills.scanned scanned_of_slotTakes), hscanned⟩,
      fun nodes hnodes stop => ?_⟩
    obtain - | ⟨hfirst, hrest⟩ := hnodes
    cases hfirst with
    | object hmembers =>
      show (readSlotMembers {} (.closed _) _ >>= fun slot =>
        readSlots (.closed stop) _ >>= fun slots => pure (slot :: slots)) = _
      rw [readSlotMembers_of_fills hfills hmembers, hread _ hrest]
      simp only [SlotDraft.finish, written_getD]
      cases s
      rfl

section

variable (d : EntryDraft)

theorem returns_kind (kind : String) :
    Returns (.string kind) (readEntryField d .kind) { d with kind := some kind } :=
  (returns_text kind).map (f := fun kind => { d with kind := some kind })
    fun node hnode => by cases hnode; rfl

theorem returns_id (id : String) :
    Returns (.string id) (readEntryField d .id) { d with id := some id } :=
  (returns_text id).map (f := fun id => { d with id := some id })
    fun node hnode => by cases hnode; rfl

theorem returns_fields {fields : Entries Json} (h : Json.Storable (.object fields)) :
    Returns (.object fields) (readEntryField d .fields) { d with fields := some fields } :=
  (returns_map h).map (f := fun fields => { d with fields := some fields })
    fun node hnode => by cases hnode; rfl

theorem returns_comment (text : String) :
    Returns (.string text) (readEntryField d .comment) { d with comment := some (some text) } :=
  ⟨(Storable.string text).scanned, fun node hnode => by cases hnode; rfl⟩

theorem returns_mutation {mutation : Entries Json} (h : Json.Storable (.object mutation)) :
    Returns (.object mutation) (readEntryField d .mutation) { d with mutation := some mutation } :=
  (returns_map h).map (f := fun mutation => { d with mutation := some mutation })
    fun node hnode => by cases hnode; rfl

variable {slots : List Slot} (hslots : ∀ s ∈ slots, ChainReturns s.block ∧ ChainReturns s.shadow)

include hslots

theorem returns_slots {α : Type} {read : Node → Except Fault α} {f : List Slot → α}
    (hread : ∀ start nodes ending, read (.array start nodes ending) =
      readSlots ending nodes >>= fun slots => pure (f slots)) :
    Returns (.array (slotsJson slots)) read (f slots) := by
  obtain ⟨hscanned, hslots⟩ := slots_return hslots
  refine ⟨scanned_array hscanned, fun node hnode => ?_⟩
  cases hnode with
  | array hnodes =>
    rw [hread, hslots _ hnodes]
    rfl

theorem returns_inputs :
    Returns (.array (slotsJson slots)) (readEntryField d .inputs) { d with inputs := some slots } :=
  returns_slots hslots (f := fun slots => { d with inputs := some slots }) fun _ _ _ => rfl

theorem returns_statements : Returns (.array (slotsJson slots)) (readEntryField d .statements)
    { d with statements := some slots } :=
  returns_slots hslots (f := fun slots => { d with statements := some slots }) fun _ _ _ => rfl

end

theorem fills_entry {e : Entry} (hfields : Json.Storable (.object e.fields))
    (hmutation : Json.Storable (.object e.mutation))
    (hslots : ∀ s ∈ e.inputs ++ e.statements, ChainReturns s.block ∧ ChainReturns s.shadow) :
    Fills EntryTakes {} e.members (e.draft none) := by
  obtain ⟨kind, id, fields, inputs, statements, comment, mutation⟩ := e
  obtain ⟨hinputs, hstatements⟩ := List.forall_mem_append.1 hslots
  have hnames : Fills EntryTakes {} [("type", .string kind), ("id", .string id)]
      { kind := some kind, id := some id } :=
    .cons ⟨.kind, rfl, rfl, returns_kind _ kind⟩ (.one ⟨.id, rfl, rfl, returns_id _ id⟩)
  have h₁ := hnames.thenList "fields" (.object fields) (fun d fields => { d with fields }) rfl
    fun _ => ⟨.fields, rfl, rfl, returns_fields _ hfields⟩
  have h₂ := h₁.thenList "inputs" (.array (slotsJson inputs)) (fun d inputs => { d with inputs })
    rfl fun _ => ⟨.inputs, rfl, rfl, returns_inputs _ hinputs⟩
  have h₃ := h₂.thenList "statements" (.array (slotsJson statements))
    (fun d statements => { d with statements }) rfl
    fun _ => ⟨.statements, rfl, rfl, returns_statements _ hstatements⟩
  have h₄ := h₃.thenText comment "comment" (fun d comment => { d with comment }) rfl
    fun text => ⟨.comment, rfl, rfl, returns_comment _ text⟩
  exact h₄.thenList "mutation" (.object mutation) (fun d mutation => { d with mutation }) rfl
    fun _ => ⟨.mutation, rfl, rfl, returns_mutation _ hmutation⟩

theorem scanned_of_entryTakes {d d' : EntryDraft} {member : String × Json}
    (h : EntryTakes d member d') : Scanned member.2 := by
  obtain ⟨_, _, _, hreturns⟩ := h
  exact hreturns.scanned

theorem chainReturns_of_fills {chain : List Entry}
    (h : ∀ e ∈ chain, Fills EntryTakes {} e.members (e.draft none)) : ChainReturns chain := by
  induction chain with
  | nil => exact fun hne => absurd rfl hne
  | cons e rest ih =>
    intro _
    rw [List.forall_mem_cons] at h
    -- The rest of the chain is stored as the last member of its first block.
    have hnext := ih h.2
    have hfills : Fills EntryTakes {} (e.members ++
        if rest.isEmpty then [] else [("next", chainJson rest)]) (e.draft (written rest)) := by
      refine h.1.thenList "next" (chainJson rest) (fun d next => { d with next }) rfl
        fun hne => ⟨.next, rfl, rfl, ?_⟩
      refine (hnext hne).map (f := fun rest => e.draft (some rest)) fun node hnode => ?_
      obtain ⟨start, nodes, stop, rfl⟩ := exists_object_of_holds hne hnode
      rfl
    refine ⟨scanned_object (hfills.scanned scanned_of_entryTakes), fun node hnode => ?_⟩
    cases hnode with
    | object hmembers =>
      show readEntryMembers {} (.closed _) _ = _
      rw [readEntryMembers_of_fills hfills hmembers, e.finish_draft]

theorem Entry.Storable.fills {e : Entry} (h : e.Storable) :
    Fills EntryTakes {} e.members (e.draft none) := by
  -- Being storable goes down to hidden shadows too, and so does the induction on it.
  induction h with
  | intro fields mutation _ ih =>
    refine fills_entry fields mutation fun s hs => ?_
    have hblocks := List.forall_mem_append.1 (ih s hs)
    exact ⟨chainReturns_of_fills hblocks.1, chainReturns_of_fills hblocks.2⟩

/-! ### Declarations and graphs -/

namespace RecordForm

variable {Draft α : Type} {r : RecordForm Draft α}

def Takes (r : RecordForm Draft α) (d : Draft) (member : String × Json) (d' : Draft) : Prop :=
  ∃ read, r.fields.lookup member.1 = some read ∧ r.has d member.1 = false ∧
    Returns member.2 (read d) d'

theorem readMembers_of_fills {d d' : Draft} {members : List (String × Json)}
    (h : Fills r.Takes d members d') {nodes : List Member} (hnodes : MembersHold nodes members)
    (stop : Nat) : r.readMembers d (.closed stop) nodes =
      r.finish d' ⟨.missingField r.required, stop⟩ := by
  induction h generalizing nodes with
  | nil =>
    cases hnodes
    rfl
  | cons first _ ih =>
    obtain ⟨read, hname, hhas, hread⟩ := first
    obtain - | ⟨hfirst, hrest⟩ := hnodes
    rw [RecordForm.readMembers]
    simp only [bind, Except.bind, hname]
    show (if _ then _ else read _ _ >>= fun d => r.readMembers d (.closed stop) _) = _
    rw [hhas, hread.read _ hfirst]
    exact ih hrest

theorem returns {start d : Draft} {members : List (String × Json)} {a : α}
    (h : Fills r.Takes start members d) (hfinish : ∀ missing, r.finish d missing = .ok a) :
    Returns (.object members) (r.read start) a := by
  refine ⟨scanned_object (h.scanned fun ⟨_, _, _, hreturns⟩ => hreturns.scanned),
    fun node hnode => ?_⟩
  cases hnode with
  | object hmembers =>
    show r.readMembers start (.closed _) _ = _
    rw [readMembers_of_fills h hmembers, hfinish]

end RecordForm

theorem returns_declaration (d : Declaration) : Returns d.json (declarationForm.read {}) d := by
  obtain ⟨name, id, kind⟩ := d
  have hname : Fills declarationForm.Takes {} [("name", .string name)] { name := some name } :=
    .one ⟨_, rfl, rfl, (returns_text name).then _⟩
  have hid := hname.thenText id "id" (fun d id => { d with id }) rfl fun text =>
    ⟨_, rfl, rfl, (returns_text? text).then _⟩
  have hkind := hid.thenText kind "type" (fun d kind => { d with kind }) rfl fun text =>
    ⟨_, rfl, rfl, (returns_text? text).then _⟩
  refine RecordForm.returns hkind fun missing => ?_
  cases id <;> cases kind <;> rfl

theorem returns_graph {g : Graph} (hg : g.Storable) : Returns g.json (graphForm.read {}) g := by
  obtain ⟨blocks, declarations⟩ := g
  have hchains : ∀ chain ∈ blocks, Returns (chainJson chain) readChain chain := fun chain hchain =>
    chainReturns_of_fills (fun e he => ((hg chain hchain).2 e he).fills) (hg chain hchain).1
  have hblocks : Fills graphForm.Takes {} [("blocks", .array (blocks.map chainJson))]
      { blocks := some blocks } :=
    .one ⟨_, rfl, rfl, (returns_list hchains).then _⟩
  have hall := hblocks.thenList "variables" (.array (declarations.map Declaration.json))
    (fun d declarations => { d with declarations }) rfl fun _ =>
    ⟨_, rfl, rfl, (returns_list fun d _ => returns_declaration d).then _⟩
  refine RecordForm.returns hall fun missing => ?_
  simp only [graphForm, written_getD]
  rfl

/-- A stored graph is loaded as it was, with all blocks, slots, fields and mutations in their order. -/
theorem load_render {g : Graph} (hg : g.Storable) (file : Nat) :
    Graph.load g.json.render file = .ok g := by
  obtain ⟨hscanned, hread⟩ := returns_graph hg
  obtain ⟨node, hnode, htext⟩ := ofText_render hscanned
  have hgraph : Graph.read g.json.render = .ok g := by
    rw [Graph.read, htext, hread node hnode]
    rfl
  rw [Graph.load, hgraph]

def guardedNote : Graph :=
  { blocks := [[
      { kind := "controls_if"
        id := "say \"ü\"\n"
        fields := [("N", .array [.int (-9223372036854775808), .int 18446744073709551615])]
        inputs := [{
          name := "IF0"
          block := [{ kind := "logic_null" }]
          shadow := [{ kind := "text", mutation := [("m", .object [("b", .null), ("a", .bool true)])] }] }]
        comment := some "" },
      { kind := "text_print", statements := [{ name := "DO\\0" }] }]]
    declarations := [{ name := "total", kind := some "Number" }] }

theorem guardedNote_load_render :
    guardedNote.Storable ∧ Graph.load guardedNote.json.render 0 = .ok guardedNote := by
  have hnone : Json.Storable (.object []) := .object (by decide) (by simp)
  have hnumbers : Json.Storable
      (.object [("N", .array [.int (-9223372036854775808), .int 18446744073709551615])]) := by
    refine .object (by decide) (List.forall_mem_singleton.2 (.array ?_))
    simp only [List.forall_mem_cons]
    exact ⟨.int (by decide), .int (by decide), by simp⟩
  have hgroup : Json.Storable (.object [("m", .object [("b", .null), ("a", .bool true)])]) := by
    refine .object (by decide) (List.forall_mem_singleton.2 (.object (by decide) ?_))
    simp only [List.forall_mem_cons]
    exact ⟨.null, .bool true, by simp⟩
  have hshadow : Entry.Storable
      { kind := "text", mutation := [("m", .object [("b", .null), ("a", .bool true)])] } :=
    .intro hnone hgroup (by simp)
  have hstorable : guardedNote.Storable := by
    refine List.forall_mem_singleton.2 ⟨by simp, ?_⟩
    simp only [List.forall_mem_cons]
    refine ⟨.intro hnumbers hnone ?_, .intro hnone hnone ?_, by simp⟩
    · refine List.forall_mem_singleton.2 ?_
      simp only [List.cons_append, List.nil_append, List.forall_mem_cons]
      exact ⟨.intro hnone hnone (by simp), hshadow, by simp⟩
    · exact List.forall_mem_singleton.2 (by simp)
  exact ⟨hstorable, load_render hstorable 0⟩

end Blockwork
