import Blockwork.Json.Read
import Blockwork.Proofs.Json.Lexemes

/-! The compact form of a value reads back. Its text becomes a tree that holds the value with all its
members in order, and a tree that holds a value is read as that value. -/

namespace Blockwork.Json

/-- Values without doubles, and with whole numbers of 64 bits. The keys of an object are its own. -/
inductive Storable : Json → Prop
  | null : Storable .null
  | bool (b : Bool) : Storable (.bool b)
  | int {n : Int} (fits : Fits n) : Storable (.int n)
  | string (s : String) : Storable (.string s)
  | array {items : List Json} (items_storable : ∀ item ∈ items, Storable item) :
    Storable (.array items)
  | object {members : List (String × Json)} (distinct : (Entries.names members).Nodup)
      (members_storable : ∀ member ∈ members, Storable member.2) : Storable (.object members)

mutual

/-- The tree is complete and holds the value, at any place of the text. -/
inductive Node.Holds : Node → Json → Prop
  | null {start stop : Nat} : Node.Holds (.scalar start stop (.ok .null)) .null
  | bool {start stop : Nat} (b : Bool) : Node.Holds (.scalar start stop (.ok (.bool b))) (.bool b)
  | int {start stop : Nat} (n : Int) : Node.Holds (.scalar start stop (.ok (.int n))) (.int n)
  | string {start stop : Nat} (s : String) :
    Node.Holds (.scalar start stop (.ok (.string s))) (.string s)
  | array {start stop : Nat} {nodes : List Node} {items : List Json}
      (hitems : NodesHold nodes items) :
    Node.Holds (.array start nodes (.closed stop)) (.array items)
  | object {start stop : Nat} {nodes : List Member} {members : List (String × Json)}
      (hmembers : MembersHold nodes members) :
    Node.Holds (.object start nodes (.closed stop)) (.object members)

inductive NodesHold : List Node → List Json → Prop
  | nil : NodesHold [] []
  | cons {node : Node} {item : Json} {nodes : List Node} {items : List Json}
      (first : Node.Holds node item) (rest : NodesHold nodes items) :
    NodesHold (node :: nodes) (item :: items)

inductive MembersHold : List Member → List (String × Json) → Prop
  | nil : MembersHold [] []
  | cons {key : String} {refused : Nat} {node : Node} {value : Json} {nodes : List Member}
      {members : List (String × Json)} (first : Node.Holds node value)
      (rest : MembersHold nodes members) :
    MembersHold (⟨.ok key, refused, node⟩ :: nodes) ((key, value) :: members)

end

/-! ### From texts to trees -/

def Document.Step.follow (length : Nat) (tokens : List Token) : Document.Step → Document
  | .next want stack => Document.ofTokens length want stack tokens
  | .complete root => ⟨root, tokens.head?.map fun t => ⟨.trailingCharacters, t.start + 1⟩⟩
  | .halt document => document

open Document

theorem ofTokens_cons (length : Nat) (want : Want) (stack : List Frame) (t : Token)
    (tokens : List Token) :
    ofTokens length want stack (t :: tokens) = (Step.of want stack t).follow length tokens := by
  rw [ofTokens]
  cases Step.of want stack t <;> rfl

def Want.TakesValue (want : Want) : Prop := want = .value ∨ want = .firstItem ∨ want = .item

/-- The written value is scanned as one node that holds it, whatever is open around it. -/
def Scanned (j : Json) : Prop :=
  ∀ offset rest, EndsValue rest → ∃ node stop, Node.Holds node j ∧
    ∀ length want stack, Want.TakesValue want →
      ofTokens length want stack (lex offset (j.render.toList ++ rest)) =
        (Step.ofNode node stack).follow length (lex stop rest)

theorem Scanned.of_lexeme {j : Json} {lexeme : Lexeme}
    (hj : ∀ start stop, Node.Holds (.scalar start stop (.ok j)) j)
    (hstep : ∀ {want}, Want.TakesValue want → ∀ start stop stack,
      Step.of want stack ⟨start, stop, lexeme⟩ = Step.ofNode (.scalar start stop (.ok j)) stack)
    (hlex : ∀ offset rest, EndsValue rest → ∃ stop, lex offset (j.render.toList ++ rest) =
      ⟨offset, stop, lexeme⟩ :: lex stop rest) : Scanned j := by
  intro offset rest hrest
  obtain ⟨stop, hlex⟩ := hlex offset rest hrest
  refine ⟨.scalar offset stop (.ok j), stop, hj offset stop, fun length want stack hwant => ?_⟩
  rw [hlex, ofTokens_cons, hstep hwant]

theorem of_scalar {want : Want} (hwant : Want.TakesValue want) (j : Json) (start stop : Nat)
    (stack : List Frame) : Step.of want stack ⟨start, stop, .scalar (.ok j)⟩ =
      Step.ofNode (.scalar start stop (.ok j)) stack := by
  rcases hwant with rfl | rfl | rfl <;> rfl

theorem of_string {want : Want} (hwant : Want.TakesValue want) (s : String) (start stop : Nat)
    (stack : List Frame) : Step.of want stack ⟨start, stop, .string (.ok s)⟩ =
      Step.ofNode (.scalar start stop (.ok (.string s))) stack := by
  rcases hwant with rfl | rfl | rfl <;> rfl

theorem of_openArray {want : Want} (hwant : Want.TakesValue want) (start stop : Nat)
    (stack : List Frame) : Step.of want stack ⟨start, stop, .openArray⟩ =
      .next .firstItem (.array start [] :: stack) := by
  rcases hwant with rfl | rfl | rfl <;> rfl

theorem of_openObject {want : Want} (hwant : Want.TakesValue want) (start stop : Nat)
    (stack : List Frame) : Step.of want stack ⟨start, stop, .openObject⟩ =
      .next .firstKey (.object start [] :: stack) := by
  rcases hwant with rfl | rfl | rfl <;> rfl

/-! ### Arrays -/

theorem scanned_items {items : List Json} (h : ∀ item ∈ items, Scanned item) (hne : items ≠ [])
    (offset : Nat) (rest : List Char) :
    ∃ nodes stop, NodesHold nodes items ∧ ∀ length want start done outer, Want.TakesValue want →
      ofTokens length want (.array start done :: outer)
          (lex offset ((renderItems items).toList ++ ']' :: rest)) =
        (Step.ofNode (.array start (done.reverse ++ nodes) (.closed stop)) outer).follow length
          (lex stop rest) := by
  induction items generalizing offset with
  | nil => exact absurd rfl hne
  | cons item more ih =>
    rw [List.forall_mem_cons] at h
    cases more with
    | nil =>
      obtain ⟨node, stop, hnode, hscan⟩ := h.1 offset (']' :: rest) (.inr (.inl rfl))
      refine ⟨[node], stop + 1, .cons hnode .nil, fun length want start done outer hwant => ?_⟩
      calc ofTokens length want (.array start done :: outer)
            (lex offset (item.render.toList ++ ']' :: rest))
        _ = ofTokens length .separator (.array start (node :: done) :: outer)
            (lex stop (']' :: rest)) := hscan length want _ hwant
        _ = (Step.close (stop + 1) (.array start (node :: done) :: outer)).follow length
            (lex (stop + 1) rest) := by rw [lex_mark rfl (fun _ _ => rfl), ofTokens_cons]; rfl
        _ = _ := by rw [Step.close, Frame.close, List.reverse_cons]
    | cons second more =>
      obtain ⟨node, stop, hnode, hscan⟩ := h.1 offset
        (',' :: ((renderItems (second :: more)).toList ++ ']' :: rest)) (.inl rfl)
      obtain ⟨nodes, stop', hnodes, hmore⟩ := ih h.2 (List.cons_ne_nil _ _) (stop + 1)
      refine ⟨node :: nodes, stop', .cons hnode hnodes,
        fun length want start done outer hwant => ?_⟩
      have htext : (renderItems (item :: second :: more)).toList ++ ']' :: rest =
          item.render.toList ++ ',' :: ((renderItems (second :: more)).toList ++ ']' :: rest) := by
        have hrender : renderItems (item :: second :: more) =
            item.render ++ "," ++ renderItems (second :: more) := rfl
        rw [hrender, String.toList_append, String.toList_append, List.append_assoc,
          List.append_assoc]
        rfl
      rw [htext]
      calc _ = ofTokens length .separator (.array start (node :: done) :: outer)
            (lex stop (',' :: ((renderItems (second :: more)).toList ++ ']' :: rest))) :=
              hscan length want _ hwant
        _ = ofTokens length .item (.array start (node :: done) :: outer)
            (lex (stop + 1) ((renderItems (second :: more)).toList ++ ']' :: rest)) := by
              rw [lex_mark rfl (fun _ _ => rfl), ofTokens_cons]; rfl
        _ = _ := by
              rw [hmore length .item start (node :: done) outer (.inr (.inr rfl)),
                List.reverse_cons, List.append_assoc]
              rfl

theorem scanned_array {items : List Json} (h : ∀ item ∈ items, Scanned item) :
    Scanned (.array items) := by
  intro offset rest _
  have htext : (render (.array items)).toList ++ rest =
      '[' :: ((renderItems items).toList ++ ']' :: rest) := by
    rw [render, String.toList_append, String.toList_append, List.append_assoc, List.append_assoc]
    rfl
  by_cases hne : items = []
  · subst hne
    refine ⟨.array offset [] (.closed (offset + 2)), offset + 2, .array .nil,
      fun length want stack hwant => ?_⟩
    rw [htext, lex_mark rfl (fun _ _ => rfl), ofTokens_cons, of_openArray hwant]
    show ofTokens length .firstItem (.array offset [] :: stack) (lex (offset + 1) (']' :: rest)) = _
    rw [lex_mark rfl (fun _ _ => rfl), ofTokens_cons]
    rfl
  · obtain ⟨nodes, stop, hnodes, hscan⟩ := scanned_items h hne (offset + 1) rest
    refine ⟨.array offset nodes (.closed stop), stop, .array hnodes,
      fun length want stack hwant => ?_⟩
    rw [htext, lex_mark rfl (fun _ _ => rfl), ofTokens_cons, of_openArray hwant]
    exact hscan length .firstItem offset [] stack (.inr (.inl rfl))

/-! ### Objects -/

def Want.TakesKey (want : Want) : Prop := want = .firstKey ∨ want = .key

theorem scanned_member {value : Json} (h : Scanned value) (key : String) (offset : Nat)
    (rest : List Char) (hrest : EndsValue rest) :
    ∃ node refused stop, Node.Holds node value ∧ ∀ length want start done outer,
      Want.TakesKey want →
        ofTokens length want (.object start done :: outer)
            (lex offset ((Text.json.quote key).toList ++ ':' :: (value.render.toList ++ rest))) =
          ofTokens length .separator (.object start (⟨.ok key, refused, node⟩ :: done) :: outer)
            (lex stop rest) := by
  obtain ⟨colon, hkey⟩ := lex_text key offset (':' :: (value.render.toList ++ rest))
  obtain ⟨node, stop, hnode, hscan⟩ := h (colon + 1) rest hrest
  refine ⟨node, colon, stop, hnode, fun length want start done outer hwant => ?_⟩
  have hstep : Step.of want (.object start done :: outer) ⟨offset, colon, .string (.ok key)⟩ =
      .next (.colon (.ok key)) (.object start done :: outer) := by
    rcases hwant with rfl | rfl <;> rfl
  rw [hkey, ofTokens_cons, hstep]
  calc _ = ofTokens length (.colon (.ok key)) (.object start done :: outer)
        (lex colon (':' :: (value.render.toList ++ rest))) := rfl
    _ = ofTokens length .value (.member start done (.ok key) colon :: outer)
        (lex (colon + 1) (value.render.toList ++ rest)) := by
          rw [lex_mark rfl (fun _ _ => rfl), ofTokens_cons]; rfl
    _ = _ := hscan length .value _ (.inl rfl)

theorem scanned_members {members : List (String × Json)} (h : ∀ member ∈ members, Scanned member.2)
    (hne : members ≠ []) (offset : Nat) (rest : List Char) :
    ∃ nodes stop, MembersHold nodes members ∧ ∀ length want start done outer, Want.TakesKey want →
      ofTokens length want (.object start done :: outer)
          (lex offset ((renderMembers members).toList ++ '\x7d' :: rest)) =
        (Step.ofNode (.object start (done.reverse ++ nodes) (.closed stop)) outer).follow length
          (lex stop rest) := by
  induction members generalizing offset with
  | nil => exact absurd rfl hne
  | cons member more ih =>
    obtain ⟨key, value⟩ := member
    rw [List.forall_mem_cons] at h
    cases more with
    | nil =>
      obtain ⟨node, refused, stop, hnode, hscan⟩ :=
        scanned_member h.1 key offset ('\x7d' :: rest) (.inr (.inr rfl))
      refine ⟨[⟨.ok key, refused, node⟩], stop + 1, .cons hnode .nil,
        fun length want start done outer hwant => ?_⟩
      have htext : (renderMembers [(key, value)]).toList ++ '\x7d' :: rest =
          (Text.json.quote key).toList ++ ':' :: (value.render.toList ++ '\x7d' :: rest) := by
        have hrender : renderMembers [(key, value)] =
            Text.json.quote key ++ ":" ++ value.render := rfl
        rw [hrender, String.toList_append, String.toList_append, List.append_assoc,
          List.append_assoc]
        rfl
      rw [htext, hscan length want start done outer hwant, lex_mark rfl (fun _ _ => rfl),
        ofTokens_cons]
      calc _ = (Step.close (stop + 1) (.object start (⟨.ok key, refused, node⟩ :: done) ::
            outer)).follow length (lex (stop + 1) rest) := rfl
        _ = _ := by rw [Step.close, Frame.close, List.reverse_cons]
    | cons second more =>
      obtain ⟨node, refused, stop, hnode, hscan⟩ := scanned_member h.1 key offset
        (',' :: ((renderMembers (second :: more)).toList ++ '\x7d' :: rest)) (.inl rfl)
      obtain ⟨nodes, stop', hnodes, hmore⟩ := ih h.2 (List.cons_ne_nil _ _) (stop + 1)
      refine ⟨⟨.ok key, refused, node⟩ :: nodes, stop', .cons hnode hnodes,
        fun length want start done outer hwant => ?_⟩
      have htext : (renderMembers ((key, value) :: second :: more)).toList ++ '\x7d' :: rest =
          (Text.json.quote key).toList ++ ':' :: (value.render.toList ++
            ',' :: ((renderMembers (second :: more)).toList ++ '\x7d' :: rest)) := by
        have hrender : renderMembers ((key, value) :: second :: more) =
            Text.json.quote key ++ ":" ++ value.render ++ "," ++ renderMembers (second :: more) := rfl
        rw [hrender]
        simp only [String.toList_append, List.append_assoc]
        rfl
      rw [htext, hscan length want start done outer hwant, lex_mark rfl (fun _ _ => rfl),
        ofTokens_cons]
      calc _ = ofTokens length .key (.object start (⟨.ok key, refused, node⟩ :: done) :: outer)
            (lex (stop + 1) ((renderMembers (second :: more)).toList ++ '\x7d' :: rest)) := rfl
        _ = _ := by
              rw [hmore length .key start _ outer (.inr rfl), List.reverse_cons, List.append_assoc]
              rfl

theorem scanned_object {members : List (String × Json)}
    (h : ∀ member ∈ members, Scanned member.2) : Scanned (.object members) := by
  intro offset rest _
  have htext : (render (.object members)).toList ++ rest =
      '\x7b' :: ((renderMembers members).toList ++ '\x7d' :: rest) := by
    rw [render, String.toList_append, String.toList_append, List.append_assoc, List.append_assoc]
    rfl
  by_cases hne : members = []
  · subst hne
    refine ⟨.object offset [] (.closed (offset + 2)), offset + 2, .object .nil,
      fun length want stack hwant => ?_⟩
    rw [htext, lex_mark rfl (fun _ _ => rfl), ofTokens_cons, of_openObject hwant]
    show ofTokens length .firstKey (.object offset [] :: stack)
      (lex (offset + 1) ('\x7d' :: rest)) = _
    rw [lex_mark rfl (fun _ _ => rfl), ofTokens_cons]
    rfl
  · obtain ⟨nodes, stop, hnodes, hscan⟩ := scanned_members h hne (offset + 1) rest
    refine ⟨.object offset nodes (.closed stop), stop, .object hnodes,
      fun length want stack hwant => ?_⟩
    rw [htext, lex_mark rfl (fun _ _ => rfl), ofTokens_cons, of_openObject hwant]
    exact hscan length .firstKey offset [] stack (.inl rfl)

theorem Storable.scanned {j : Json} (h : Storable j) : Scanned j := by
  induction h with
  | null =>
    exact .of_lexeme (fun _ _ => .null) (fun hwant => of_scalar hwant .null)
      fun offset rest _ => ⟨_, lex_null offset rest⟩
  | bool b =>
    exact .of_lexeme (fun _ _ => .bool b) (fun hwant => of_scalar hwant (.bool b))
      fun offset rest _ => lex_bool b offset rest
  | int fits =>
    exact .of_lexeme (fun _ _ => .int _) (fun hwant => of_scalar hwant (.int _))
      fun offset rest hrest => lex_int fits offset hrest
  | string s =>
    exact .of_lexeme (fun _ _ => .string s) (fun hwant => of_string hwant s)
      fun offset rest _ => lex_text s offset rest
  | array _ ih => exact scanned_array ih
  | object _ _ ih => exact scanned_object ih

theorem ofText_render {j : Json} (h : Scanned j) :
    ∃ node, Node.Holds node j ∧ Document.ofText j.render = ⟨node, none⟩ := by
  obtain ⟨node, stop, hnode, hscan⟩ := h 0 [] trivial
  refine ⟨node, hnode, ?_⟩
  have hroot := hscan j.render.utf8ByteSize .value [] (.inl rfl)
  rw [List.append_nil] at hroot
  rw [Document.ofText, hroot, lex]
  rfl

/-! ### From trees to values -/

theorem readItems_of_holds {nodes : List Node} {items : List Json}
    (hread : ∀ item ∈ items, ∀ node : Node, node.Holds item → node.read = .ok item)
    (h : NodesHold nodes items) : readItems nodes = .ok items := by
  induction items generalizing nodes with
  | nil =>
    cases h
    rfl
  | cons item items ih =>
    obtain - | ⟨hfirst, hrest⟩ := h
    rw [List.forall_mem_cons] at hread
    rw [readItems, hread.1 _ hfirst, ih hread.2 hrest]
    rfl

theorem readMembers_of_holds {nodes : List Member} {members : Entries Json}
    (hread : ∀ member ∈ members, ∀ node : Node, node.Holds member.2 → node.read = .ok member.2)
    (h : MembersHold nodes members) (done : Entries Json)
    (hdistinct : (Entries.names (done ++ members)).Nodup) :
    readMembers done nodes = .ok (done ++ members) := by
  induction members generalizing nodes done with
  | nil =>
    cases h
    rw [List.append_nil]
    rfl
  | cons member members ih =>
    obtain ⟨key, value⟩ := member
    obtain - | ⟨hfirst, hrest⟩ := h
    rw [List.forall_mem_cons] at hread
    -- A key that was there already would be overwritten in its place.
    have hnew : key ∉ Entries.names done := by
      rw [Entries.names, List.map_append, List.map_cons] at hdistinct
      intro hkey
      exact (List.nodup_append.1 hdistinct).2.2 key hkey key List.mem_cons_self rfl
    have hsplit : done ++ (key, value) :: members = (done ++ [(key, value)]) ++ members := by
      rw [List.append_assoc, List.singleton_append]
    rw [hsplit] at hdistinct ⊢
    rw [readMembers]
    show (Node.read _ >>= fun value => readMembers (done.put key value) _) = _
    rw [hread.1 _ hfirst]
    show readMembers (done.put key value) _ = _
    rw [Entries.put_of_not_mem hnew, ih hread.2 hrest _ hdistinct]

theorem read_of_holds {j : Json} (hj : Storable j) :
    ∀ node : Node, node.Holds j → node.read = .ok j := by
  induction hj with
  | null | bool | int | string =>
    intro node h
    cases h
    rfl
  | array _ ih =>
    intro node h
    cases h with
    | array hitems =>
      rw [Node.read, readItems_of_holds ih hitems]
      rfl
  | object distinct _ ih =>
    intro node h
    cases h with
    | object hmembers =>
      rw [Node.read, readMembers_of_holds ih hmembers [] distinct]
      rfl

section

variable {node : Node}

theorem readMap_of_holds {members : Entries Json} (hmembers : Storable (.object members))
    (h : node.Holds (.object members)) : node.readMap = .ok members := by
  cases hmembers with
  | object distinct hstorable =>
    cases h with
    | object hnodes =>
      rw [Node.readMap, readMembers_of_holds (fun m hm => read_of_holds (hstorable m hm)) hnodes []
        distinct]
      rfl

theorem readText_of_holds {s : String} (h : node.Holds (.string s)) : node.readText = .ok s := by
  cases h
  rfl

theorem readText?_of_holds {s : String} (h : node.Holds (.string s)) :
    node.readText? = .ok (some s) := by
  cases h
  rfl

end

end Blockwork.Json
