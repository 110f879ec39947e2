import Blockwork.Proofs.Graph.Records

/-! Loading does not depend on how a source is laid out. The members of graphs, blocks, slots and
declarations may stand in any order, with unknown members among them, and there may be white space
between all tokens. -/

namespace Blockwork

open Json

def Record.content? (r : Record) (name : String) : Option Content :=
  (r.shape.field? name).map r.shape.content

/-- The key denotes a text, which is no field of the record. -/
def Record.Spare (r : Record) (key : Quoted) : Prop :=
  ∃ name, key.denoted? = some name ∧ r.content? name = none

def Content.isPlain : Content → Bool
  | .text | .optionalText | .map => true
  | .link | .list _ => false

mutual

/-- A record in object form, with its members in another order and spare members among them; the same
holds for all records in it. -/
inductive Record.Rearranged : Record → Tree → Tree → Prop
  | object {r : Record} {members members' spare all : List (Quoted × Tree)}
      (hmembers : MembersRearranged r members members') (hspare : ∀ m ∈ spare, r.Spare m.1)
      (hall : (members' ++ spare).Perm all) :
    Record.Rearranged r (.object members) (.object all)

inductive MembersRearranged : Record → List (Quoted × Tree) → List (Quoted × Tree) → Prop
  | nil {r : Record} : MembersRearranged r [] []
  | cons {r : Record} {key : Quoted} {value value' : Tree} {members members' : List (Quoted × Tree)}
      (first : ValueRearranged (key.denoted?.bind r.content?) value value')
      (rest : MembersRearranged r members members') :
    MembersRearranged r ((key, value) :: members) ((key, value') :: members')

inductive ValueRearranged : Option Content → Tree → Tree → Prop
  | plain {content : Option Content} (h : ∀ c ∈ content, c.isPlain = true) (t : Tree) :
    ValueRearranged content t t
  | null (w : Word) : ValueRearranged (some .link) (.word w) (.word w)
  | link {t t' : Tree} (h : Record.Rearranged .chain t t') : ValueRearranged (some .link) t t'
  | list {r : Record} {items items' : List Tree} (h : ItemsRearranged r items items') :
    ValueRearranged (some (.list r)) (.array items) (.array items')

inductive ItemsRearranged : Record → List Tree → List Tree → Prop
  | nil {r : Record} : ItemsRearranged r [] []
  | cons {r : Record} {item item' : Tree} {items items' : List Tree}
      (first : Record.Rearranged r item item') (rest : ItemsRearranged r items items') :
    ItemsRearranged r (item :: items) (item' :: items')

end

/-! ### Nodes of members -/

structure Shown (m : Member) (member : Quoted × Tree) : Prop where
  key : m.key.toOption = member.1.denoted?
  value : m.value.Shows member.2

theorem shown_of_membersShow {nodes : List Member} {members : List (Quoted × Tree)}
    (h : MembersShow nodes members) : List.Forall₂ Shown nodes members := by
  induction members generalizing nodes with
  | nil =>
    cases h
    exact .nil
  | cons member members ih =>
    obtain - | ⟨hkey, first, rest⟩ := h
    exact .cons ⟨hkey, first⟩ (ih rest)

/-- The nodes of members in another order are those of the members, in another order. -/
theorem shown_perm {nodes : List Member} {members all : List (Quoted × Tree)}
    (h : List.Forall₂ Shown nodes all) (hall : members.Perm all) :
    ∃ nodes', nodes'.Perm nodes ∧ List.Forall₂ Shown nodes' members := by
  obtain ⟨nodes', hnodes', hperm⟩ := List.perm_comp_forall₂ hall (List.Forall₂.flip h)
  exact ⟨nodes', hperm, hnodes'.flip⟩

theorem ignores_of_spare {r : Record} {nodes : List Member} {spare : List (Quoted × Tree)}
    (h : List.Forall₂ Shown nodes spare) (hspare : ∀ m ∈ spare, r.Spare m.1) :
    ∀ m ∈ nodes, r.shape.Ignores m := by
  induction h with
  | nil => simp
  | cons hm _ ih =>
    rw [List.forall_mem_cons] at hspare ⊢
    obtain ⟨⟨name, hkey, hname⟩, hrest⟩ := hspare
    exact ⟨⟨name, hm.key.trans hkey, Option.map_eq_none_iff.1 hname, hm.value.skip⟩, ih hrest⟩

theorem read?_spare {r : Record} {nodes : List Member} {members spare all : List (Quoted × Tree)}
    (hnodes : List.Forall₂ Shown nodes all) (hspare : ∀ m ∈ spare, r.Spare m.1)
    (hall : (members ++ spare).Perm all) :
    ∃ nodes', List.Forall₂ Shown nodes' members ∧ r.shape.read? nodes = r.shape.read? nodes' := by
  obtain ⟨nodes', hperm, hshown⟩ := shown_perm hnodes hall
  have hignored := ignores_of_spare (List.forall₂_drop_append _ _ _ hshown) hspare
  refine ⟨nodes'.take members.length, List.forall₂_take_append _ _ _ hshown, ?_⟩
  rw [← Shape.read?_append_ignored hignored (nodes'.take members.length), List.take_append_drop,
    Shape.read?_perm hperm]

/-! ### Rearranged records -/

theorem plain_read_eq {content : Content} (h : content.isPlain = true) {node node' : Node} {t : Tree}
    (hnode : node.Shows t) (hnode' : node'.Shows t) :
    (content.read node).toOption = (content.read node').toOption := by
  cases content with
  | text => exact hnode.readText_eq hnode'
  | optionalText => exact hnode.readText?_eq hnode'
  | map => exact hnode.readMap_eq hnode'
  | link | list => exact absurd h Bool.false_ne_true

theorem toOption_readLink (node : Node) : (Content.link.read node).toOption =
    if node.isNull then some [] else (readChain node).toOption := by
  show (if node.isNull then Except.ok [] else readChain node).toOption = _
  split <;> rfl

theorem null_read_eq {node node' : Node} {w : Word} (hnode : node.Shows (.word w))
    (hnode' : node'.Shows (.word w)) :
    (Content.link.read node).toOption = (Content.link.read node').toOption := by
  rw [toOption_readLink, toOption_readLink, hnode.isNull_eq hnode']
  cases hnode
  cases hnode'
  rfl

/-- Members of one key whose values read alike fill a draft alike. -/
theorem step_eq_of_shown {r : Record} {m m' : Member} {key : Quoted} {t t' : Tree}
    (hm : Shown m (key, t)) (hm' : Shown m' (key, t'))
    (hread : ∀ content ∈ key.denoted?.bind r.content?,
      (content.read m.value).toOption = (content.read m'.value).toOption) (d : r.shape.Draft) :
    r.shape.step d m = r.shape.step d m' := by
  cases hkey : key.denoted? with
  | none => rw [Shape.step_keyless (hm.key.trans hkey), Shape.step_keyless (hm'.key.trans hkey)]
  | some name =>
    cases hfield : r.shape.field? name with
    | none =>
      rw [Shape.step_unknown (hm.key.trans hkey) hfield, Shape.step_unknown (hm'.key.trans hkey) hfield,
        hm.value.skip, hm'.value.skip]
    | some f =>
      have hcontent : key.denoted?.bind r.content? = some (r.shape.content f) := by
        rw [hkey, Option.bind_some, Record.content?, hfield, Option.map_some]
      rw [Shape.step_known (hm.key.trans hkey) hfield, Shape.step_known (hm'.key.trans hkey) hfield,
        hread _ hcontent]

mutual

theorem Record.Rearranged.read_eq {r : Record} {node node' : Node} : ∀ {t t' : Tree},
    r.Rearranged t t' → node.Shows t → node'.Shows t' →
      (r.read node).toOption = (r.read node').toOption ∧ node.isNull = node'.isNull
  | _, _, .object hmembers hspare hall, .object h, .object h' => by
    obtain ⟨nodes, hnodes, hread⟩ := read?_spare (shown_of_membersShow h') hspare hall
    refine ⟨?_, rfl⟩
    rw [Record.read_object, Record.read_object, hread]
    exact Shape.read?_congr (hmembers.step_eq (shown_of_membersShow h) hnodes)

theorem MembersRearranged.step_eq {r : Record} {nodes nodes' : List Member} :
    ∀ {members members' : List (Quoted × Tree)}, MembersRearranged r members members' →
      List.Forall₂ Shown nodes members → List.Forall₂ Shown nodes' members' →
        List.Forall₂ (fun m m' => ∀ d, r.shape.step d m = r.shape.step d m') nodes nodes'
  | _, _, .nil, .nil, .nil => .nil
  | _, _, .cons first rest, .cons hm hrest, .cons hm' hrest' => by
    have hvalue := first.read_eq hm.value hm'.value
    refine .cons (fun d => ?_) (rest.step_eq hrest hrest')
    exact step_eq_of_shown hm hm' hvalue d

theorem ValueRearranged.read_eq {content? : Option Content} {node node' : Node} : ∀ {t t' : Tree},
    ValueRearranged content? t t' → node.Shows t → node'.Shows t' →
      ∀ content ∈ content?, (content.read node).toOption = (content.read node').toOption
  | _, _, .plain h _, hnode, hnode' => fun content hcontent =>
    plain_read_eq (h content hcontent) hnode hnode'
  | _, _, .null _, hnode, hnode' => fun content hcontent => by
    obtain rfl := Option.some.inj hcontent
    exact null_read_eq hnode hnode'
  | _, _, .link h, hnode, hnode' => fun content hcontent => by
    obtain ⟨hread, hnull⟩ := h.read_eq hnode hnode'
    obtain rfl := Option.some.inj hcontent
    rw [toOption_readLink, toOption_readLink, hnull]
    exact congrArg _ hread
  | _, _, .list h, .array hnodes, .array hnodes' => fun content hcontent => by
    have hitems := h.read_eq hnodes hnodes'
    obtain rfl := Option.some.inj hcontent
    simp only [Content.read, readList, toOption_bind, hitems]
    rfl

theorem ItemsRearranged.read_eq {r : Record} {nodes nodes' : List Node} :
    ∀ {items items' : List Tree}, ItemsRearranged r items items' → NodesShow nodes items →
      NodesShow nodes' items' → (nodes.mapM r.read).toOption = (nodes'.mapM r.read).toOption
  | _, _, .nil, .nil, .nil => rfl
  | _, _, .cons first rest, .cons hnode hrest, .cons hnode' hrest' => by
    simp only [List.mapM_cons, toOption_bind, (first.read_eq hnode hnode').1,
      rest.read_eq hrest hrest']

end

theorem load_eq_ok {t : Tree} {source : String} (h : t.IsOf source) : ∃ node, node.Shows t ∧
    ∀ file g, Graph.load source file = .ok g ↔ (graphForm.read {} node).toOption = some g := by
  obtain ⟨node, hnode, hdocument⟩ := h.document
  refine ⟨node, hnode, fun file g => ?_⟩
  have hread : Graph.read source = graphForm.read {} node := by
    rw [Graph.read, hdocument]
    cases graphForm.read {} node <;> rfl
  rw [Graph.load, hread]
  cases graphForm.read {} node <;> simp [Except.toOption]

/-- A source that is laid out in another way is loaded as the same graph. -/
theorem load_rearranged {t t' : Tree} {source source' : String} (h : t.IsOf source)
    (h' : t'.IsOf source') (hrearranged : Record.graph.Rearranged t t') {file : Nat} {g : Graph}
    (hload : Graph.load source file = .ok g) : Graph.load source' file = .ok g := by
  obtain ⟨node, hnode, hg⟩ := load_eq_ok h
  obtain ⟨node', hnode', hg'⟩ := load_eq_ok h'
  have hread : (graphForm.read {} node).toOption = (graphForm.read {} node').toOption :=
    (hrearranged.read_eq hnode hnode').1
  rw [hg', ← hread]
  exact (hg file g).1 hload

/-! ### Two layouts of one graph -/

namespace Layouts

def blocks : Quoted := ⟨['b', 'l', 'o', 'c', 'k', 's'], isQuoted_of_plain rfl⟩

def type : Quoted := ⟨['t', 'y', 'p', 'e'], isQuoted_of_plain rfl⟩

def note : Quoted := ⟨['n', 'o', 't', 'e'], isQuoted_of_plain rfl⟩

/-- Half of a pair of surrogates, which is no text. -/
def unpaired : Quoted := ⟨['\\', 'u', 'd', '8', '0', '0'], .unit rfl .nil⟩

def huge : Word where
  text := ['1', 'e', '4', '0', '0']
  valid := .number (@IsNumber.mk [] ['1'] [] ['e', '4', '0', '0'] (.inl rfl)
    (isDigits_of_all (List.cons_ne_nil _ _) rfl) (fun _ => rfl) .none
    (@IsExponent.some 'e' [] ['4', '0', '0'] (.inl rfl) (.inl rfl)
      (isDigits_of_all (List.cons_ne_nil _ _) rfl)))

def plain : Tree := .object [(blocks, .array [.object [(type, .string note)]])]

def annotated : Tree :=
  .object [(note, .array [.string unpaired]),
    (blocks, .array [.object [(note, .word huge), (type, .string note)]])]

def plainText : String := "\x7b\"blocks\":[\x7b\"type\":\"note\"\x7d]\x7d"

def annotatedText : String :=
  "\x7b \"note\" : [\"\\ud800\"],\n\"blocks\":[\x7b\"note\":1e400,\t\"type\":\"note\"\x7d]\x7d\n"

theorem isBlank_nil : IsBlank [] := List.forall_mem_nil _

theorem isBlank_space {c : Char} (hc : isSpace c = true) : IsBlank [c] :=
  List.forall_mem_singleton.2 hc

theorem plain_isOf : plain.IsOf plainText := by
  have htype : MemberSpelled type (.string note) _ :=
    .mk isBlank_nil isBlank_nil isBlank_nil (.string note) isBlank_nil
  have hblocks : MemberSpelled blocks (.array [.object [(type, .string note)]]) _ :=
    .mk isBlank_nil isBlank_nil isBlank_nil
      (.array (.last isBlank_nil (.object (.last htype)) isBlank_nil)) isBlank_nil
  exact ⟨[], _, [], isBlank_nil, .object (.last hblocks), isBlank_nil, rfl⟩

theorem annotated_isOf : annotated.IsOf annotatedText := by
  have hnote : MemberSpelled note (.array [.string unpaired]) _ :=
    .mk (isBlank_space (c := ' ') rfl) (isBlank_space (c := ' ') rfl) (isBlank_space (c := ' ') rfl)
      (.array (.last isBlank_nil (.string unpaired) isBlank_nil)) isBlank_nil
  have hhuge : MemberSpelled note (.word huge) _ :=
    .mk isBlank_nil isBlank_nil isBlank_nil (.word huge) isBlank_nil
  have htype : MemberSpelled type (.string note) _ :=
    .mk (isBlank_space (c := '\t') rfl) isBlank_nil isBlank_nil (.string note) isBlank_nil
  have hblocks : MemberSpelled blocks
      (.array [.object [(note, .word huge), (type, .string note)]]) _ :=
    .mk (isBlank_space (c := '\n') rfl) isBlank_nil isBlank_nil
      (.array (.last isBlank_nil (.object (.cons hhuge (.last htype))) isBlank_nil)) isBlank_nil
  exact ⟨[], _, ['\n'], isBlank_nil, .object (.cons hnote (.last hblocks)), isBlank_space rfl, rfl⟩

theorem plain_rearranged : Record.graph.Rearranged plain annotated := by
  have hspare : ∀ r ∈ [Record.graph, .chain], r.Spare note := by
    simp only [List.forall_mem_cons]
    exact ⟨⟨"note", rfl, rfl⟩, ⟨"note", rfl, rfl⟩, List.forall_mem_nil _⟩
  have htype : ∀ c ∈ type.denoted?.bind Record.chain.content?, c.isPlain = true := by
    rintro c ⟨⟩
    rfl
  have hblock : Record.chain.Rearranged (.object [(type, .string note)])
      (.object [(note, .word huge), (type, .string note)]) :=
    .object (.cons (.plain htype _) .nil)
      (List.forall_mem_singleton.2 (hspare _ (List.mem_cons_of_mem _ List.mem_cons_self)))
      (.swap ..)
  exact .object (.cons (.list (.cons hblock .nil)) .nil)
    (List.forall_mem_singleton.2 (hspare _ List.mem_cons_self)) (.swap ..)

theorem load_plainText (file : Nat) :
    Graph.load plainText file = .ok { blocks := [[{ kind := "note" }]] } := by
  obtain ⟨node, hnode, hload⟩ := load_eq_ok plain_isOf
  rw [hload]
  obtain - | - | - | h := hnode
  obtain - | ⟨hblocks, harray, hnil⟩ := h
  cases hnil
  obtain - | - | hitems := harray
  obtain - | ⟨hblock, hnil⟩ := hitems
  cases hnil
  obtain - | - | - | h := hblock
  obtain - | ⟨htype, hnote, hnil⟩ := h
  cases hnil
  obtain - | hnote := hnote
  have hok : ∀ {x : Except Fault String} {s : String}, x.toOption = some s → x = .ok s := by
    rintro (f | a) s h
    · exact nomatch h
    · exact congrArg _ (Option.some.inj h)
  obtain rfl := hok (hblocks.trans (rfl : blocks.denoted? = some "blocks"))
  obtain rfl := hok (htype.trans (rfl : type.denoted? = some "type"))
  obtain rfl := hok (hnote.trans (rfl : note.denoted? = some "note"))
  rfl

end Layouts

theorem annotated_load_rearranged : Layouts.plain.IsOf Layouts.plainText ∧
    Layouts.annotated.IsOf Layouts.annotatedText ∧
      Record.graph.Rearranged Layouts.plain Layouts.annotated ∧
        Graph.load Layouts.plainText 0 = .ok { blocks := [[{ kind := "note" }]] } ∧
          Graph.load Layouts.annotatedText 0 = .ok { blocks := [[{ kind := "note" }]] } :=
  ⟨Layouts.plain_isOf, Layouts.annotated_isOf, Layouts.plain_rearranged, Layouts.load_plainText 0,
    load_rearranged Layouts.plain_isOf Layouts.annotated_isOf Layouts.plain_rearranged
      (Layouts.load_plainText 0)⟩

/-- An unknown member whose key is half of a pair of surrogates. The key is well-formed and is no
field, but it denotes no text, and nothing is loaded. -/
theorem unpairedKey_breaks_load : ∃ (t t' : Tree) (source source' : String) (key : Quoted) (w : Word),
    t = .object [] ∧ t' = .object [(key, .word w)] ∧ t.IsOf source ∧ t'.IsOf source' ∧
      (∀ name content, Record.graph.content? name = some content → key.denoted? ≠ some name) ∧
        Graph.load source 0 = .ok {} ∧ ∀ g, Graph.load source' 0 ≠ .ok g := by
  have hempty : Tree.IsOf (.object []) "\x7b\x7d" :=
    ⟨[], _, [], Layouts.isBlank_nil, .emptyObject Layouts.isBlank_nil, Layouts.isBlank_nil, rfl⟩
  have hkey : Tree.IsOf (.object [(Layouts.unpaired, .word ⟨_, .null⟩)])
      "\x7b\"\\ud800\":null\x7d" :=
    ⟨[], _, [], Layouts.isBlank_nil, .object (.last (.mk Layouts.isBlank_nil Layouts.isBlank_nil
      Layouts.isBlank_nil (.word _) Layouts.isBlank_nil)), Layouts.isBlank_nil, rfl⟩
  refine ⟨_, _, _, _, Layouts.unpaired, ⟨_, .null⟩, rfl, rfl, hempty, hkey, ?_, ?_, ?_⟩
  · exact fun name content _ h => nomatch (h : none = some name)
  · obtain ⟨node, hnode, hload⟩ := load_eq_ok hempty
    rw [hload]
    obtain - | - | - | h := hnode
    cases h
    rfl
  · intro g
    obtain ⟨node, hnode, hload⟩ := load_eq_ok hkey
    rw [Ne, hload]
    obtain - | - | - | h := hnode
    obtain - | @⟨name, _, _, _, _, _, _, hname, -, -⟩ := h
    cases name with
    | error f => exact nofun
    | ok name => exact nomatch (hname : some name = none)

end Blockwork
