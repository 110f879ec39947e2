import Blockwork.Proofs.Json.Grammar
import Blockwork.Proofs.Json.Tree

/-! White space between the tokens of a text does not matter. All texts of one tree become nodes that
show the tree, and what a reader takes from such a node is the same for all of them. -/

namespace Blockwork.Json

mutual

/-- The node is complete and has the tree's form; its scalars denote what those of the tree do. -/
inductive Node.Shows : Node → Tree → Prop
  | word {start stop : Nat} {value : Except Fault Json} {w : Word}
      (h : value.toOption = w.denoted?) : Node.Shows (.scalar start stop value) (.word w)
  | string {start stop : Nat} {content : Except Fault String} {q : Quoted}
      (h : content.toOption = q.denoted?) :
    Node.Shows (.scalar start stop (content.map .string)) (.string q)
  | array {start stop : Nat} {nodes : List Node} {items : List Tree} (h : NodesShow nodes items) :
    Node.Shows (.array start nodes (.closed stop)) (.array items)
  | object {start stop : Nat} {nodes : List Member} {members : List (Quoted × Tree)}
      (h : MembersShow nodes members) : Node.Shows (.object start nodes (.closed stop)) (.object members)

inductive NodesShow : List Node → List Tree → Prop
  | nil : NodesShow [] []
  | cons {node : Node} {item : Tree} {nodes : List Node} {items : List Tree}
      (first : Node.Shows node item) (rest : NodesShow nodes items) :
    NodesShow (node :: nodes) (item :: items)

inductive MembersShow : List Member → List (Quoted × Tree) → Prop
  | nil : MembersShow [] []
  | cons {name : Except Fault String} {key : Quoted} {refused : Nat} {node : Node} {value : Tree}
      {nodes : List Member} {members : List (Quoted × Tree)} (hkey : name.toOption = key.denoted?)
      (first : Node.Shows node value) (rest : MembersShow nodes members) :
    MembersShow (⟨name, refused, node⟩ :: nodes) ((key, value) :: members)

end

/-! ### From texts to nodes -/

open Document

theorem endsNumber_mark {c : Char} (hc : c = ',' ∨ c = ']' ∨ c = '\x7d') (rest : List Char) :
    EndsNumber (c :: rest) := by
  intro d hd
  obtain rfl := Option.some.inj hd
  rcases hc with rfl | rfl | rfl <;> decide

theorem endsNumber_blank {blank rest : List Char} (h : IsBlank blank) (hrest : EndsNumber rest) :
    EndsNumber (blank ++ rest) := by
  cases blank with
  | nil => exact hrest
  | cons s blank =>
    intro d hd
    obtain rfl := Option.some.inj hd
    have hs : isSpace s = true := h s List.mem_cons_self
    obtain ((rfl | rfl) | rfl) | rfl : ((s = ' ' ∨ s = '\n') ∨ s = '\t') ∨ s = '\r' := by
      simpa [isSpace] using hs
    all_goals decide

/-- The text is scanned as one node that shows the tree, whatever is open around it. -/
def Scans (t : Tree) (cs : List Char) : Prop :=
  ∀ offset rest, EndsNumber rest → ∃ node stop, Node.Shows node t ∧
    ∀ length want stack, Want.TakesValue want →
      ofTokens length want stack (lex offset (cs ++ rest)) =
        (Step.ofNode node stack).follow length (lex stop rest)

def ScansItems (items : List Tree) (body : List Char) : Prop :=
  ∀ offset rest, ∃ nodes stop, NodesShow nodes items ∧
    ∀ length want start done outer, Want.TakesValue want →
      ofTokens length want (.array start done :: outer) (lex offset (body ++ ']' :: rest)) =
        (Step.ofNode (.array start (done.reverse ++ nodes) (.closed stop)) outer).follow length
          (lex stop rest)

def ScansMembers (members : List (Quoted × Tree)) (body : List Char) : Prop :=
  ∀ offset rest, ∃ nodes stop, MembersShow nodes members ∧
    ∀ length want start done outer, Want.TakesKey want →
      ofTokens length want (.object start done :: outer) (lex offset (body ++ '\x7d' :: rest)) =
        (Step.ofNode (.object start (done.reverse ++ nodes) (.closed stop)) outer).follow length
          (lex stop rest)

def ScansMember (key : Quoted) (value : Tree) (member : List Char) : Prop :=
  ∀ offset c rest, c = ',' ∨ c = '\x7d' → ∃ name refused node stop,
    name.toOption = key.denoted? ∧ Node.Shows node value ∧
      ∀ length want start done outer, Want.TakesKey want →
        ofTokens length want (.object start done :: outer) (lex offset (member ++ c :: rest)) =
          ofTokens length .separator (.object start (⟨name, refused, node⟩ :: done) :: outer)
            (lex stop (c :: rest))

theorem scans_word (w : Word) : Scans (.word w) w.text := by
  intro offset rest hrest
  obtain ⟨value, stop, hlex, hvalue⟩ := lex_word w offset hrest
  refine ⟨.scalar offset stop value, stop, .word hvalue, fun length want stack hwant => ?_⟩
  rw [hlex, ofTokens_cons]
  rcases hwant with rfl | rfl | rfl <;> rfl

theorem scans_string (q : Quoted) : Scans (.string q) q.text := by
  intro offset rest _
  obtain ⟨content, stop, hlex, hcontent⟩ := lex_quoted q offset rest
  refine ⟨.scalar offset stop (content.map .string), stop, .string hcontent, fun length want stack hwant => ?_⟩
  rw [hlex, ofTokens_cons]
  rcases hwant with rfl | rfl | rfl <;> rfl

/-! ### Arrays -/

theorem scans_item {item : Tree} {before cs after : List Char} (h : Scans item cs)
    (hbefore : IsBlank before) (hafter : IsBlank after) (offset : Nat) {c : Char}
    (hc : c = ',' ∨ c = ']' ∨ c = '\x7d') (rest : List Char) :
    ∃ node stop, Node.Shows node item ∧ ∀ length want frame outer, Want.TakesValue want →
      ofTokens length want (frame :: outer) (lex offset (before ++ (cs ++ (after ++ c :: rest)))) =
        ofTokens length .separator (frame.push node :: outer) (lex stop (c :: rest)) := by
  obtain ⟨node, stop, hnode, hscan⟩ := h (offset + before.length) (after ++ c :: rest)
    (endsNumber_blank hafter (endsNumber_mark hc rest))
  refine ⟨node, stop + after.length, hnode, fun length want frame outer hwant => ?_⟩
  rw [lex_blank hbefore, hscan length want _ hwant, ← lex_blank hafter]
  rfl

theorem scansItems_last {item : Tree} {before cs after : List Char} (h : Scans item cs)
    (hbefore : IsBlank before) (hafter : IsBlank after) :
    ScansItems [item] (before ++ (cs ++ after)) := by
  intro offset rest
  obtain ⟨node, stop, hnode, hscan⟩ := scans_item h hbefore hafter offset (.inr (.inl rfl)) rest
  refine ⟨[node], stop + 1, .cons hnode .nil, fun length want start done outer hwant => ?_⟩
  rw [List.append_assoc, List.append_assoc, hscan length want _ outer hwant,
    lex_mark rfl (fun _ _ => rfl), ofTokens_cons]
  calc _ = (Step.close (stop + 1) (.array start (node :: done) :: outer)).follow length
        (lex (stop + 1) rest) := rfl
    _ = _ := by rw [Step.close, Frame.close, List.reverse_cons]

theorem scansItems_cons {item : Tree} {before cs after body : List Char} {items : List Tree}
    (h : Scans item cs) (hbefore : IsBlank before) (hafter : IsBlank after)
    (hmore : ScansItems items body) :
    ScansItems (item :: items) (before ++ (cs ++ (after ++ ',' :: body))) := by
  intro offset rest
  obtain ⟨node, stop, hnode, hscan⟩ :=
    scans_item h hbefore hafter offset (.inl rfl) (body ++ ']' :: rest)
  obtain ⟨nodes, stop', hnodes, hmore⟩ := hmore (stop + 1) rest
  refine ⟨node :: nodes, stop', .cons hnode hnodes, fun length want start done outer hwant => ?_⟩
  have htext : before ++ (cs ++ (after ++ ',' :: body)) ++ ']' :: rest =
      before ++ (cs ++ (after ++ ',' :: (body ++ ']' :: rest))) := by simp
  rw [htext, hscan length want _ outer hwant, lex_mark rfl (fun _ _ => rfl), ofTokens_cons]
  calc _ = ofTokens length .item (.array start (node :: done) :: outer)
        (lex (stop + 1) (body ++ ']' :: rest)) := rfl
    _ = _ := by
      rw [hmore length .item start _ outer (.inr (.inr rfl)), List.reverse_cons, List.append_assoc]
      rfl

theorem scans_emptyArray {blank : List Char} (h : IsBlank blank) :
    Scans (.array []) ('[' :: (blank ++ [']'])) := by
  intro offset rest _
  refine ⟨.array offset [] (.closed (offset + 1 + blank.length + 1)), offset + 1 + blank.length + 1,
    .array .nil, fun length want stack hwant => ?_⟩
  have htext : '[' :: (blank ++ [']']) ++ rest = '[' :: (blank ++ ']' :: rest) := by simp
  rw [htext, lex_mark rfl (fun _ _ => rfl), ofTokens_cons, of_openArray hwant]
  show ofTokens length .firstItem (.array offset [] :: stack) (lex _ (blank ++ _)) = _
  rw [lex_blank h, lex_mark rfl (fun _ _ => rfl), ofTokens_cons]
  rfl

theorem scans_array {items : List Tree} {body : List Char} (h : ScansItems items body) :
    Scans (.array items) ('[' :: (body ++ [']'])) := by
  intro offset rest _
  obtain ⟨nodes, stop, hnodes, hscan⟩ := h (offset + 1) rest
  refine ⟨.array offset nodes (.closed stop), stop, .array hnodes, fun length want stack hwant => ?_⟩
  have htext : '[' :: (body ++ [']']) ++ rest = '[' :: (body ++ ']' :: rest) := by simp
  rw [htext, lex_mark rfl (fun _ _ => rfl), ofTokens_cons, of_openArray hwant]
  exact hscan length .firstItem offset [] stack (.inr (.inl rfl))

/-! ### Objects -/

theorem scansMember {key : Quoted} {value : Tree} {before middle between cs after : List Char}
    (hbefore : IsBlank before) (hmiddle : IsBlank middle) (hbetween : IsBlank between)
    (h : Scans value cs) (hafter : IsBlank after) :
    ScansMember key value
      (before ++ (key.text ++ (middle ++ ':' :: (between ++ (cs ++ after))))) := by
  intro offset c rest hc
  obtain ⟨name, behind, hkey, hname⟩ := lex_quoted key (offset + before.length)
    (middle ++ ':' :: (between ++ (cs ++ (after ++ c :: rest))))
  obtain ⟨node, stop, hnode, hscan⟩ := scans_item h hbetween hafter (behind + middle.length + 1)
    (hc.imp id .inr) rest
  refine ⟨name, behind + middle.length, node, stop, hname, hnode,
    fun length want start done outer hwant => ?_⟩
  have htext : before ++ (key.text ++ (middle ++ ':' :: (between ++ (cs ++ after)))) ++ c :: rest =
      before ++ (key.text ++ (middle ++ ':' :: (between ++ (cs ++ (after ++ c :: rest))))) := by simp
  have hstep : Step.of want (.object start done :: outer)
      ⟨offset + before.length, behind, .string name⟩ =
        .next (.colon name) (.object start done :: outer) := by
    rcases hwant with rfl | rfl <;> rfl
  rw [htext, lex_blank hbefore, hkey, ofTokens_cons, hstep]
  calc _ = ofTokens length (.colon name) (.object start done :: outer)
        (lex behind (middle ++ ':' :: (between ++ (cs ++ (after ++ c :: rest))))) := rfl
    _ = ofTokens length .value (.member start done name (behind + middle.length) :: outer)
        (lex (behind + middle.length + 1) (between ++ (cs ++ (after ++ c :: rest)))) := by
      rw [lex_blank hmiddle, lex_mark rfl (fun _ _ => rfl), ofTokens_cons]
      rfl
    _ = _ := hscan length .value _ outer (.inl rfl)

theorem scansMembers_last {key : Quoted} {value : Tree} {member : List Char}
    (h : ScansMember key value member) : ScansMembers [(key, value)] member := by
  intro offset rest
  obtain ⟨name, refused, node, stop, hname, hnode, hscan⟩ := h offset '\x7d' rest (.inr rfl)
  refine ⟨[⟨name, refused, node⟩], stop + 1, .cons hname hnode .nil,
    fun length want start done outer hwant => ?_⟩
  rw [hscan length want start done outer hwant, lex_mark rfl (fun _ _ => rfl), ofTokens_cons]
  calc _ = (Step.close (stop + 1) (.object start (⟨name, refused, node⟩ :: done) ::
        outer)).follow length (lex (stop + 1) rest) := rfl
    _ = _ := by rw [Step.close, Frame.close, List.reverse_cons]

theorem scansMembers_cons {key : Quoted} {value : Tree} {member body : List Char}
    {members : List (Quoted × Tree)} (h : ScansMember key value member)
    (hmore : ScansMembers members body) :
    ScansMembers ((key, value) :: members) (member ++ ',' :: body) := by
  intro offset rest
  obtain ⟨name, refused, node, stop, hname, hnode, hscan⟩ :=
    h offset ',' (body ++ '\x7d' :: rest) (.inl rfl)
  obtain ⟨nodes, stop', hnodes, hmore⟩ := hmore (stop + 1) rest
  refine ⟨⟨name, refused, node⟩ :: nodes, stop', .cons hname hnode hnodes,
    fun length want start done outer hwant => ?_⟩
  have htext : member ++ ',' :: body ++ '\x7d' :: rest =
      member ++ ',' :: (body ++ '\x7d' :: rest) := by simp
  rw [htext, hscan length want start done outer hwant, lex_mark rfl (fun _ _ => rfl),
    ofTokens_cons]
  calc _ = ofTokens length .key (.object start (⟨name, refused, node⟩ :: done) :: outer)
        (lex (stop + 1) (body ++ '\x7d' :: rest)) := rfl
    _ = _ := by
      rw [hmore length .key start _ outer (.inr rfl), List.reverse_cons, List.append_assoc]
      rfl

theorem scans_emptyObject {blank : List Char} (h : IsBlank blank) :
    Scans (.object []) ('\x7b' :: (blank ++ ['\x7d'])) := by
  intro offset rest _
  refine ⟨.object offset [] (.closed (offset + 1 + blank.length + 1)), offset + 1 + blank.length + 1,
    .object .nil, fun length want stack hwant => ?_⟩
  have htext : '\x7b' :: (blank ++ ['\x7d']) ++ rest = '\x7b' :: (blank ++ '\x7d' :: rest) := by
    simp
  rw [htext, lex_mark rfl (fun _ _ => rfl), ofTokens_cons, of_openObject hwant]
  show ofTokens length .firstKey (.object offset [] :: stack) (lex _ (blank ++ _)) = _
  rw [lex_blank h, lex_mark rfl (fun _ _ => rfl), ofTokens_cons]
  rfl

theorem scans_object {members : List (Quoted × Tree)} {body : List Char}
    (h : ScansMembers members body) : Scans (.object members) ('\x7b' :: (body ++ ['\x7d'])) := by
  intro offset rest _
  obtain ⟨nodes, stop, hnodes, hscan⟩ := h (offset + 1) rest
  refine ⟨.object offset nodes (.closed stop), stop, .object hnodes, fun length want stack hwant => ?_⟩
  have htext : '\x7b' :: (body ++ ['\x7d']) ++ rest = '\x7b' :: (body ++ '\x7d' :: rest) := by simp
  rw [htext, lex_mark rfl (fun _ _ => rfl), ofTokens_cons, of_openObject hwant]
  exact hscan length .firstKey offset [] stack (.inl rfl)

/-! ### Whole texts -/

mutual

theorem Tree.Spelled.scans {t : Tree} {cs : List Char} : t.Spelled cs → Scans t cs
  | .word w => scans_word w
  | .string q => scans_string q
  | .emptyArray h => scans_emptyArray h
  | .array h => scans_array h.scans
  | .emptyObject h => scans_emptyObject h
  | .object h => scans_object h.scans

theorem ItemsSpelled.scans {items : List Tree} {body : List Char} :
    ItemsSpelled items body → ScansItems items body
  | .last hbefore h hafter => scansItems_last h.scans hbefore hafter
  | .cons hbefore h hafter hrest => scansItems_cons h.scans hbefore hafter hrest.scans

theorem MembersSpelled.scans {members : List (Quoted × Tree)} {body : List Char} :
    MembersSpelled members body → ScansMembers members body
  | .last h => scansMembers_last h.scans
  | .cons h hrest => scansMembers_cons h.scans hrest.scans

theorem MemberSpelled.scans {key : Quoted} {value : Tree} {member : List Char} :
    MemberSpelled key value member → ScansMember key value member
  | .mk hbefore hmiddle hbetween h hafter => scansMember hbefore hmiddle hbetween h.scans hafter

end

/-- The document of a source has one node, which shows the tree. -/
theorem Tree.IsOf.document {t : Tree} {source : String} (h : t.IsOf source) :
    ∃ node, Node.Shows node t ∧ Document.ofText source = ⟨node, none⟩ := by
  obtain ⟨before, cs, after, hbefore, hspelled, hafter, hsource⟩ := h
  have hend : EndsNumber (after ++ []) := endsNumber_blank hafter (by simp [EndsNumber])
  obtain ⟨node, stop, hnode, hscan⟩ := hspelled.scans (0 + before.length) (after ++ []) hend
  refine ⟨node, hnode, ?_⟩
  have hroot := hscan source.utf8ByteSize .value [] (.inl rfl)
  rw [Document.ofText, hsource, lex_blank hbefore, ← List.append_nil after, hroot, lex_blank hafter,
    lex]
  rfl

/-! ### From nodes to values -/

section

variable {ε α β : Type}

@[simp] theorem toOption_bind (x : Except ε α) (f : α → Except ε β) :
    (x >>= f).toOption = x.toOption.bind fun a => (f a).toOption := by
  cases x <;> rfl

@[simp] theorem toOption_map (f : α → β) (x : Except ε α) :
    (f <$> x).toOption = x.toOption.map f := by
  cases x <;> rfl

@[simp] theorem toOption_exceptMap (f : α → β) (x : Except ε α) :
    (x.map f).toOption = x.toOption.map f := by
  cases x <;> rfl

end

mutual

theorem Node.Shows.skip {node : Node} {t : Tree} : node.Shows t → node.skip = .ok ()
  | .word _ => rfl
  | .string _ => rfl
  | .array h => by
    rw [Node.skip, h.skip]
    rfl
  | .object h => by
    rw [Node.skip, h.skip]
    rfl

theorem NodesShow.skip {nodes : List Node} {items : List Tree} :
    NodesShow nodes items → skipItems nodes = .ok ()
  | .nil => rfl
  | .cons first rest => by
    rw [skipItems, first.skip, rest.skip]
    rfl

theorem MembersShow.skip {nodes : List Member} {members : List (Quoted × Tree)} :
    MembersShow nodes members → skipMembers nodes = .ok ()
  | .nil => rfl
  | .cons _ first rest => by
    rw [skipMembers, first.skip, rest.skip]
    rfl

end

mutual

theorem Node.Shows.read_eq {node node' : Node} : ∀ {t : Tree}, node.Shows t → node'.Shows t →
    node.read.toOption = node'.read.toOption
  | .word _, .word h, .word h' => h.trans h'.symm
  | .string _, .string h, .string h' => by
    rw [Node.read, Node.read, toOption_exceptMap, toOption_exceptMap, h, h']
  | .array _, .array h, .array h' => by
    simp only [Node.read, toOption_bind, h.read_eq h']
    rfl
  | .object _, .object h, .object h' => by
    simp only [Node.read, toOption_bind, h.read_eq h']
    rfl

theorem NodesShow.read_eq {nodes nodes' : List Node} : ∀ {items : List Tree},
    NodesShow nodes items → NodesShow nodes' items →
      (readItems nodes).toOption = (readItems nodes').toOption
  | [], .nil, .nil => rfl
  | _ :: _, .cons first rest, .cons first' rest' => by
    simp only [readItems, toOption_bind, first.read_eq first', rest.read_eq rest']

theorem MembersShow.read_eq {nodes nodes' : List Member} {done : Entries Json} :
    ∀ {members : List (Quoted × Tree)}, MembersShow nodes members → MembersShow nodes' members →
      (readMembers done nodes).toOption = (readMembers done nodes').toOption
  | [], .nil, .nil => rfl
  | _ :: _, .cons hkey first rest, .cons hkey' first' rest' => by
    simp only [readMembers, toOption_bind, hkey, hkey', first.read_eq first', rest.read_eq rest']

end

def text? : Json → Option String
  | .string s => some s
  | _ => none

def isNull : Json → Bool
  | .null => true
  | _ => false

def Node.isNull : Node → Bool
  | .scalar _ _ (.ok .null) => true
  | _ => false

theorem readsText_or (node : Node) : (∃ start stop value, node = .scalar start stop (.ok value)) ∨
    node.readText.toOption = none ∧ node.isNull = false ∧
      ∀ value ∈ node.read.toOption, text? value = none ∧ value.isNull = false := by
  cases node with
  | scalar start stop value =>
    rcases value with f | value
    · exact .inr ⟨rfl, rfl, fun _ h => nomatch h⟩
    · exact .inl ⟨start, stop, value, rfl⟩
  | array =>
    refine .inr ⟨rfl, rfl, fun value h => ?_⟩
    simp only [Node.read, toOption_bind, Option.mem_def, Option.bind_eq_some_iff] at h
    obtain ⟨items, -, _, -, h⟩ := h
    obtain rfl := Option.some.inj h
    exact ⟨rfl, rfl⟩
  | object =>
    refine .inr ⟨rfl, rfl, fun value h => ?_⟩
    simp only [Node.read, toOption_bind, Option.mem_def, Option.bind_eq_some_iff] at h
    obtain ⟨members, -, _, -, h⟩ := h
    obtain rfl := Option.some.inj h
    exact ⟨rfl, rfl⟩
  | broken => exact .inr ⟨rfl, rfl, fun _ h => nomatch h⟩

theorem toOption_readText (node : Node) :
    node.readText.toOption = node.read.toOption.bind text? := by
  obtain ⟨start, stop, value, rfl⟩ | ⟨htext, -, hread⟩ := readsText_or node
  · cases value <;> rfl
  · rw [htext, eq_comm, Option.bind_eq_none_iff]
    exact fun value h => (hread value h).1

theorem isNull_eq (node : Node) : node.isNull = node.read.toOption.any isNull := by
  obtain ⟨start, stop, value, rfl⟩ | ⟨-, hnull, hread⟩ := readsText_or node
  · cases value <;> rfl
  · rw [hnull]
    cases h : node.read.toOption with
    | none => rfl
    | some value => exact (hread value h).2.symm

theorem toOption_readText? (node : Node) : node.readText?.toOption =
    if node.isNull then some none else node.readText.toOption.map some := by
  unfold Node.readText? Node.isNull
  split
  · rfl
  · rw [toOption_map]
    simp

section

variable {node node' : Node} {t : Tree} (h : node.Shows t) (h' : node'.Shows t)

include h h'

theorem Node.Shows.isNull_eq : node.isNull = node'.isNull := by
  rw [Json.isNull_eq, Json.isNull_eq, h.read_eq h']

theorem Node.Shows.readText_eq : node.readText.toOption = node'.readText.toOption := by
  rw [toOption_readText, toOption_readText, h.read_eq h']

theorem Node.Shows.readText?_eq : node.readText?.toOption = node'.readText?.toOption := by
  rw [toOption_readText?, toOption_readText?, h.isNull_eq h', h.readText_eq h']

theorem Node.Shows.readMap_eq : node.readMap.toOption = node'.readMap.toOption := by
  cases h with
  | object h =>
    obtain - | - | - | h' := h'
    simp only [Node.readMap, toOption_bind, h.read_eq h']
    rfl
  | _ => cases h'; rfl

end

end Blockwork.Json
