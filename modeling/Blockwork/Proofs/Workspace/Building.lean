import Blockwork.Proofs.Graph.Reachable
import Blockwork.Workspace

/-! What building a workspace asks of a graph and what it makes of it, one step at a time: each step
succeeds with a result exactly when the entry, the slot or the setting passes its checks and the
result is as described. -/

namespace Blockwork

section

variable {ε α β : Type}

theorem bind_ok_iff {x : Except ε α} {f : α → Except ε β} {b : β} :
    x >>= f = .ok b ↔ ∃ a, x = .ok a ∧ f a = .ok b := by
  cases x <;> simp [bind, Except.bind]

theorem mapM_ok_iff {f : α → Except ε β} {as : List α} {bs : List β} :
    as.mapM f = .ok bs ↔ List.Forall₂ (fun a b => f a = .ok b) as bs := by
  induction as generalizing bs with
  | nil => cases bs <;> simp [pure, Except.pure]
  | cons a as ih =>
    rw [List.mapM_cons, List.forall₂_cons_left_iff]
    simp only [bind_ok_iff, ih]
    constructor
    · rintro ⟨b, hb, bs', hbs, h⟩
      cases h
      exact ⟨b, bs', hb, hbs, rfl⟩
    · rintro ⟨b, bs', hb, hbs, rfl⟩
      exact ⟨b, hb, bs', hbs, rfl⟩

theorem exists_forall₂_iff {R : α → β → Prop} {as : List α} :
    (∃ bs, List.Forall₂ R as bs) ↔ ∀ a ∈ as, ∃ b, R a b := by
  induction as with
  | nil => simp
  | cons a as ih =>
    simp only [List.forall₂_cons_left_iff, List.forall_mem_cons, ← ih]
    constructor
    · rintro ⟨_, b, bs, hb, hbs, -⟩
      exact ⟨⟨b, hb⟩, bs, hbs⟩
    · rintro ⟨⟨b, hb⟩, bs, hbs⟩
      exact ⟨b :: bs, b, bs, hb, hbs, rfl⟩

end

/-! ### Settings -/

theorem variableNames_append (declarations : List Declaration) (d : Declaration) :
    variableNames (declarations ++ [d]) = match d.id with
      | none => variableNames declarations
      | some id => (variableNames declarations).put id d.name := by
  unfold variableNames Entries.ofList
  cases hid : d.id <;> simp [List.filterMap_append, hid]

/-- The variable that an id stands for: the last one that is declared with it. -/
def declaredAs (declarations : List Declaration) (id : String) : Option Declaration :=
  declarations.reverse.find? fun d => d.id = some id

theorem variableNames_get? (declarations : List Declaration) (id : String) :
    (variableNames declarations).get? id = (declaredAs declarations id).map Declaration.name := by
  unfold declaredAs
  -- The last declaration of an id overwrites the earlier ones, so the induction starts at the end.
  induction declarations using List.reverseRecOn with
  | nil => rfl
  | append_singleton declarations last ih =>
    rw [variableNames_append, List.reverse_append, List.reverse_singleton, List.singleton_append,
      List.find?_cons]
    by_cases hid : last.id = some id
    · simp [hid, Entries.get?_put_self]
    · rw [decide_eq_false hid, ← ih]
      cases hlast : last.id with
      | none => rfl
      | some other => exact Entries.get?_put_of_ne _ _ fun h => hid (h ▸ hlast)

theorem declaredAs_isSome {declarations : List Declaration} {id : String} :
    (∃ d, declaredAs declarations id = some d) ↔ ∃ d ∈ declarations, d.id = some id := by
  rw [← Option.isSome_iff_exists, declaredAs, List.find?_isSome]
  simp

inductive SettingText (declarations : List Declaration) : Json → String → Prop
  | text (s : String) : SettingText declarations (.string s) s
  | int (n : Int) : SettingText declarations (.int n) (Json.intText n)
  | float (x : Float) : SettingText declarations (.float x) (Json.floatText x)
  | true : SettingText declarations (.bool true) "TRUE"
  | false : SettingText declarations (.bool false) "FALSE"
  | named {members : List (String × Json)} {name : String}
      (hname : members.lookup "name" = some (.string name)) :
      SettingText declarations (.object members) name
  | declared {members : List (String × Json)} {id : String} {d : Declaration}
      (hname : ∀ name, members.lookup "name" ≠ some (.string name))
      (hid : members.lookup "id" = some (.string id)) (hd : declaredAs declarations id = some d) :
      SettingText declarations (.object members) d.name

section

variable {names : Entries String} {members : List (String × Json)}

theorem fieldText_named {name : String} (hname : members.lookup "name" = some (.string name)) :
    fieldText names (.object members) = .ok name := by
  simp only [fieldText, hname]

theorem fieldText_declared {id name : String}
    (hname : ∀ name, members.lookup "name" ≠ some (.string name))
    (hid : members.lookup "id" = some (.string id)) (hd : names.get? id = some name) :
    fieldText names (.object members) = .ok name := by
  simp only [fieldText, hid, hd]

theorem fieldText_undeclared {id : String}
    (hname : ∀ name, members.lookup "name" ≠ some (.string name))
    (hid : members.lookup "id" = some (.string id)) (hd : names.get? id = none) :
    fieldText names (.object members) = .error (.undeclared id) := by
  simp only [fieldText, hid, hd]

theorem fieldText_noReference (hname : ∀ name, members.lookup "name" ≠ some (.string name))
    (hid : ∀ id, members.lookup "id" ≠ some (.string id)) :
    fieldText names (.object members) = .error .noReference := by
  simp only [fieldText]

end

theorem fieldText_eq_ok {declarations : List Declaration} {j : Json} {text : String} :
    fieldText (variableNames declarations) j = .ok text ↔ SettingText declarations j text := by
  constructor
  · intro h
    cases j with
    | null => cases h
    | array items => cases h
    | bool b => cases b <;> cases h <;> constructor
    | string | int | float => cases h; constructor
    | object members =>
      by_cases hname : ∃ name, members.lookup "name" = some (.string name)
      · obtain ⟨name, hname⟩ := hname
        rw [fieldText_named hname] at h
        cases h
        exact .named hname
      · have hname := not_exists.1 hname
        by_cases hid : ∃ id, members.lookup "id" = some (.string id)
        · obtain ⟨id, hid⟩ := hid
          have hnames := variableNames_get? declarations id
          cases hd : declaredAs declarations id with
          | none =>
            rw [hd] at hnames
            rw [fieldText_undeclared hname hid hnames] at h
            cases h
          | some d =>
            rw [hd] at hnames
            rw [fieldText_declared hname hid hnames] at h
            cases h
            exact .declared hname hid hd
        · rw [fieldText_noReference hname (not_exists.1 hid)] at h
          cases h
  · intro h
    cases h with
    | named hname => exact fieldText_named hname
    | @declared _ id _ hname hid hd =>
      refine fieldText_declared hname hid ?_
      rw [variableNames_get?, hd]
      rfl
    | _ => rfl

mutual

/-- A value is written in one line without blanks. -/
inductive Json.Compact : Json → String → Prop
  | null : Json.Compact .null "null"
  | true : Json.Compact (.bool true) "true"
  | false : Json.Compact (.bool false) "false"
  | int (n : Int) : Json.Compact (.int n) (Json.intText n)
  | float (x : Float) : Json.Compact (.float x) (Json.floatText x)
  | string (s : String) : Json.Compact (.string s) (Text.json.quote s)
  | array {items : List Json} {body : String} (h : ItemsCompact items body) :
      Json.Compact (.array items) ("[" ++ body ++ "]")
  | object {members : List (String × Json)} {body : String} (h : MembersCompact members body) :
      Json.Compact (.object members) ("\x7b" ++ body ++ "\x7d")

inductive ItemsCompact : List Json → String → Prop
  | nil : ItemsCompact [] ""
  | last {item : Json} {text : String} (h : item.Compact text) : ItemsCompact [item] text
  | cons {item next : Json} {items : List Json} {text body : String} (h : item.Compact text)
      (hrest : ItemsCompact (next :: items) body) :
      ItemsCompact (item :: next :: items) (text ++ "," ++ body)

inductive MembersCompact : List (String × Json) → String → Prop
  | nil : MembersCompact [] ""
  | last {key : String} {value : Json} {text : String} (h : value.Compact text) :
      MembersCompact [(key, value)] (Text.json.quote key ++ ":" ++ text)
  | cons {key : String} {value : Json} {next : String × Json} {members : List (String × Json)}
      {text body : String} (h : value.Compact text) (hrest : MembersCompact (next :: members) body) :
      MembersCompact ((key, value) :: next :: members)
        (Text.json.quote key ++ ":" ++ text ++ "," ++ body)

end

mutual

theorem compact_render : ∀ j : Json, j.Compact j.render
  | .null => .null
  | .bool true => .true
  | .bool false => .false
  | .int n => .int n
  | .float x => .float x
  | .string s => .string s
  | .array items => .array (itemsCompact_render items)
  | .object members => .object (membersCompact_render members)

theorem itemsCompact_render : ∀ items : List Json, ItemsCompact items (Json.renderItems items)
  | [] => .nil
  | [item] => .last (compact_render item)
  | item :: next :: items => .cons (compact_render item) (itemsCompact_render (next :: items))

theorem membersCompact_render : ∀ members : List (String × Json),
    MembersCompact members (Json.renderMembers members)
  | [] => .nil
  | [(_, value)] => .last (compact_render value)
  | (_, value) :: next :: members =>
    .cons (compact_render value) (membersCompact_render (next :: members))

end

inductive MutationText : Json → String → Prop
  | text (s : String) : MutationText (.string s) s
  | null : MutationText .null ""
  | other {j : Json} {text : String} (hstring : ∀ s, j ≠ .string s) (hnull : j ≠ .null)
      (h : j.Compact text) : MutationText j text

theorem mutationText_text (j : Json) : MutationText j (mutationText j) := by
  cases j with
  | string s => exact .text s
  | null => exact .null
  | _ => exact .other (fun _ h => nomatch h) (fun h => nomatch h) (compact_render _)

theorem fieldTexts_eq_ok {names : Entries String} {kind id : String} {fields : Entries Json}
    {texts : Entries String} : fieldTexts names kind id fields = .ok texts ↔
      List.Forall₂ (fun field text => text.1 = field.1 ∧ fieldText names field.2 = .ok text.2)
        fields texts := by
  induction fields generalizing texts with
  | nil => cases texts <;> simp [fieldTexts]
  | cons field rest ih =>
    obtain ⟨name, value⟩ := field
    rw [List.forall₂_cons_left_iff]
    cases htext : fieldText names value with
    | error flaw => simp [fieldTexts, htext]
    | ok text =>
      have hcons : fieldTexts names kind id ((name, value) :: rest) =
          fieldTexts names kind id rest >>= fun rest => pure ((name, text) :: rest) := by
        simp only [fieldTexts, htext]
      rw [hcons, bind_ok_iff]
      simp only [ih]
      constructor
      · rintro ⟨texts', h, heq⟩
        cases heq
        exact ⟨(name, text), texts', ⟨rfl, rfl⟩, h, rfl⟩
      · rintro ⟨⟨name', text'⟩, texts', ⟨rfl, h'⟩, h, rfl⟩
        obtain rfl : text = text' := Except.ok.inj h'
        exact ⟨texts', h, rfl⟩

/-! ### Slots and blocks -/

theorem find_eq_ok {κ : Type} {registry : Registry κ} {tag : String} {kind : κ} :
    registry.find tag = .ok kind ↔ registry.kinds.get? tag = some kind := by
  unfold Registry.find
  cases registry.kinds.get? tag <;> simp

theorem checkSlot_eq_ok {kind id name : String} {before : List String} {u : Unit} :
    checkSlot kind id name before = .ok u ↔ name ≠ "" ∧ name ∉ before := by
  unfold checkSlot
  by_cases hname : name = ""
  · simp [hname]
  · by_cases hbefore : name ∈ before <;> simp [hname, hbefore]

section

variable {κ : Type} {registry : Registry κ} {names : Entries String}

theorem buildChain_eq_ok {chain : List Entry} {blocks : List (Block κ)} :
    buildChain registry names chain = .ok blocks ↔
      List.Forall₂ (fun e b => buildBlock registry names e = .ok b) chain blocks := by
  have hmap : ∀ chain, buildChain registry names chain =
      chain.mapM (buildBlock registry names) := by
    intro chain
    induction chain with
    | nil => rfl
    | cons e rest ih =>
      rw [List.mapM_cons, ← ih]
      rfl
  rw [hmap, mapM_ok_iff]

theorem buildSockets_cons {tag id : String} {before : List String} (s : Slot) (rest : List Slot) :
    buildSockets registry names tag id before (s :: rest) = (do
      checkSlot tag id s.name before
      let chain ← buildChain registry names s.payload
      return ⟨s.name, chain⟩ :: (← buildSockets registry names tag id (s.name :: before) rest)) := by
  obtain ⟨name, block, shadow⟩ := s
  cases block <;> rfl

def Socket.MadeOf (registry : Registry κ) (names : Entries String) (s : Slot) (socket : Socket κ) :
    Prop :=
  socket.name = s.name ∧ buildChain registry names s.payload = .ok socket.chain

def Named (slots : List Slot) : Prop := (∀ s ∈ slots, s.name ≠ "") ∧ (slots.map Slot.name).Nodup

theorem named_cons {s : Slot} {rest : List Slot} :
    Named (s :: rest) ↔ s.name ≠ "" ∧ (∀ t ∈ rest, t.name ≠ s.name) ∧ Named rest := by
  simp only [Named, List.forall_mem_cons, List.map_cons, List.nodup_cons, List.mem_map, not_exists,
    not_and]
  tauto

theorem buildSockets_eq_ok {tag id : String} {before : List String} {slots : List Slot}
    {sockets : List (Socket κ)} :
    buildSockets registry names tag id before slots = .ok sockets ↔
      Named slots ∧ (∀ s ∈ slots, s.name ∉ before) ∧
        List.Forall₂ (Socket.MadeOf registry names) slots sockets := by
  induction slots generalizing before sockets with
  | nil => cases sockets <;> simp [buildSockets, Named]
  | cons s rest ih =>
    rw [buildSockets_cons, List.forall₂_cons_left_iff]
    simp only [bind_ok_iff, checkSlot_eq_ok, ih]
    rw [named_cons, List.forall_mem_cons]
    constructor
    · rintro ⟨_, ⟨hname, hbefore⟩, chain, hchain, sockets', ⟨hnamed, hrest, h⟩, heq⟩
      cases heq
      -- The slots behind this one are checked against its name too.
      have hfresh : ∀ t ∈ rest, t.name ≠ s.name := fun t ht heq =>
        hrest t ht (heq ▸ List.mem_cons_self)
      exact ⟨⟨hname, hfresh, hnamed⟩, ⟨hbefore, fun t ht hmem =>
        hrest t ht (List.mem_cons_of_mem _ hmem)⟩, ⟨s.name, chain⟩, sockets', ⟨rfl, hchain⟩, h, rfl⟩
    · rintro ⟨⟨hname, hfresh, hnamed⟩, ⟨hbefore, hrest⟩, ⟨_, chain⟩, sockets', ⟨rfl, hchain⟩, h, rfl⟩
      refine ⟨(), ⟨hname, hbefore⟩, chain, hchain, sockets', ⟨hnamed, fun t ht hmem => ?_, h⟩, rfl⟩
      rcases List.mem_cons.1 hmem with heq | hmem
      · exact hfresh t ht heq
      · exact hrest t ht hmem

theorem buildBlock_eq_ok {e : Entry} {b : Block κ} : buildBlock registry names e = .ok b ↔
    e.kind ≠ "" ∧ registry.kinds.get? e.kind = some b.kind ∧
      fieldTexts names e.kind e.id e.fields = .ok b.fields ∧
      (Named e.inputs ∧ List.Forall₂ (Socket.MadeOf registry names) e.inputs b.values) ∧
      (Named e.statements ∧ List.Forall₂ (Socket.MadeOf registry names) e.statements b.statements) ∧
      b.tag = e.kind ∧ b.id = e.id ∧ b.mutations = mutationsOf e.mutation ∧
      b.comments = e.comment.toList := by
  obtain ⟨tag, id, fields, inputs, statements, comment, mutation⟩ := e
  have hbuild : buildBlock registry names ⟨tag, id, fields, inputs, statements, comment, mutation⟩ =
      (do
        if tag.isEmpty then throw (.malformed (.untypedBlock id))
        let kind ← registry.find tag
        let texts ← fieldTexts names tag id fields
        let values ← buildSockets registry names tag id [] inputs
        let statements ← buildSockets registry names tag id [] statements
        return ⟨kind, tag, id, texts, values, statements, mutationsOf mutation, comment.toList⟩) := rfl
  rw [hbuild]
  by_cases htag : tag = ""
  · subst htag
    constructor
    · intro h
      cases h
    · exact fun h => absurd rfl h.1
  · have hempty : ¬tag.isEmpty = true := fun h => htag (String.isEmpty_iff.1 h)
    simp only [if_neg hempty, bind_ok_iff, find_eq_ok, buildSockets_eq_ok]
    constructor
    · rintro ⟨kind, hkind, texts, hfields, values, ⟨hinputs, -, hvalues⟩, below,
        ⟨hstatements, -, hbelow⟩, heq⟩
      cases heq
      exact ⟨htag, hkind, hfields, ⟨hinputs, hvalues⟩, ⟨hstatements, hbelow⟩, rfl, rfl, rfl, rfl⟩
    · obtain ⟨kind, tag', id', texts, values, below, mutations, comments⟩ := b
      rintro ⟨-, hkind, hfields, ⟨hinputs, hvalues⟩, ⟨hstatements, hbelow⟩, rfl, rfl, rfl, rfl⟩
      exact ⟨kind, hkind, texts, hfields, values, ⟨hinputs, fun _ _ => List.not_mem_nil, hvalues⟩,
        below, ⟨hstatements, fun _ _ => List.not_mem_nil, hbelow⟩, rfl⟩

end

/-! ### Workspaces -/

theorem ofGraph_eq_ok {κ : Type} {registry : Registry κ} {g : Graph} {w : Workspace κ} :
    Workspace.ofGraph registry g = .ok w ↔ (∀ d ∈ g.declarations, d.name ≠ "") ∧
      List.Forall₂ (fun chain blocks =>
          buildChain registry (variableNames g.declarations) chain = .ok blocks)
        (g.declarations.map Declaration.chain ++ g.blocks) w.chains := by
  rw [← mapM_ok_iff, List.mapM_append, List.mapM_map, Workspace.ofGraph]
  by_cases hnames : g.declarations.any (·.name.isEmpty) = true
  · rw [if_pos hnames]
    constructor
    · intro h
      cases h
    · intro h
      obtain ⟨d, hd, hname⟩ := List.any_eq_true.1 hnames
      exact absurd (String.isEmpty_iff.1 hname) (h.1 d hd)
  · have hnamed : ∀ d ∈ g.declarations, d.name ≠ "" := fun d hd hname =>
      hnames (List.any_eq_true.2 ⟨d, hd, String.isEmpty_iff.2 hname⟩)
    simp only [if_neg hnames, bind_ok_iff]
    constructor
    · rintro ⟨declared, hdeclared, chains, hchains, heq⟩
      cases heq
      exact ⟨hnamed, declared, hdeclared, chains, hchains, rfl⟩
    · rintro ⟨-, declared, hdeclared, chains, hchains, heq⟩
      obtain ⟨_⟩ := w
      cases heq
      exact ⟨declared, hdeclared, chains, hchains, rfl⟩

end Blockwork
