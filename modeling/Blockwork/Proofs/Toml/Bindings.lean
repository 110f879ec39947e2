import Blockwork.Command.Programs
import Blockwork.Proofs.Number.Integers
import Blockwork.Proofs.Toml.Comments

/-! Bindings that one run prints are the globals of the next. They are read back just if each of
them fits its line. -/

namespace Blockwork

namespace Value

mutual

theorem isPlain_of_toml? : ∀ {v : Value} {t : Toml}, v.toml? = some t → t.IsPlain
  | .null, _, h => by cases h
  | .boolean _, _, h => by cases h; trivial
  | .number x, t, h => by
    rw [toml?] at h
    split at h <;> cases h
    · exact Number.isInteger_of_integer? ‹_›
    · trivial
  | .text _, _, h => by cases h; trivial
  | .list items, t, h => by
    obtain ⟨ts, hts, rfl⟩ := Option.map_eq_some_iff.1 (by simpa only [toml?] using h)
    exact arePlain_of_tomlItems? hts

theorem arePlain_of_tomlItems? : ∀ {items : List Value} {ts : List Toml},
    tomlItems? items = some ts → Toml.ArePlain ts
  | [], _, h => by cases h; trivial
  | item :: rest, ts, h => by
    simp only [tomlItems?, Option.bind_eq_bind, Option.bind_eq_some_iff] at h
    obtain ⟨t, ht, ts', hts, h⟩ := h
    cases h
    exact ⟨isPlain_of_toml? ht, arePlain_of_tomlItems? hts⟩

end

/-- No number inside is a NaN, which would not even equal itself. -/
def IsComparable (v : Value) : Prop := ∀ x, .number x ∈ v.leaves → x.isNaN = false

mutual

theorem exists_ofToml : ∀ {v : Value} {t : Toml}, v.toml? = some t → v.IsComparable →
    ∃ v', ofToml t = .ok v' ∧ v.equals v' = true
  | .null, _, h, _ => by cases h
  | .boolean b, _, h, _ => by
    cases h
    exact ⟨.boolean b, rfl, by simp [equals]⟩
  | .number x, t, h, hv => by
    rw [toml?] at h
    split at h <;> cases h
    · exact ⟨_, rfl, Number.beq_ofInt_of_integer? ‹_›⟩
    · exact ⟨_, rfl, Number.beq_self (hv x (by simp [leaves]))⟩
  | .text s, _, h, _ => by
    cases h
    exact ⟨.text s, rfl, by simp [equals]⟩
  | .list items, t, h, hv => by
    obtain ⟨ts, hts, rfl⟩ := Option.map_eq_some_iff.1 (by simpa only [toml?] using h)
    obtain ⟨items', hitems, hequal⟩ := exists_ofTomlItems hts hv
    exact ⟨.list items', by rw [ofToml, hitems]; rfl, hequal⟩

theorem exists_ofTomlItems : ∀ {items : List Value} {ts : List Toml}, tomlItems? items = some ts →
    (∀ x, .number x ∈ leavesOfItems items → x.isNaN = false) →
      ∃ items', ofTomlItems ts = .ok items' ∧ equalItems items items' = true
  | [], _, h, _ => by
    cases h
    exact ⟨[], rfl, rfl⟩
  | item :: rest, ts, h, hv => by
    simp only [tomlItems?, Option.bind_eq_bind, Option.bind_eq_some_iff] at h
    obtain ⟨t, ht, ts', hts, h⟩ := h
    cases h
    obtain ⟨v, hv', hequal⟩ := exists_ofToml ht fun x hx => hv x (by simp [leavesOfItems, hx])
    obtain ⟨rest', hrest, hequals⟩ :=
      exists_ofTomlItems hts fun x hx => hv x (by simp [leavesOfItems, hx])
    exact ⟨v :: rest', by rw [ofTomlItems, hv', hrest]; rfl, by simp [equalItems, hequal, hequals]⟩

end

end Value

namespace Toml

/-! ### Documents of lines -/

section Statements

variable {fuel : ℕ} {d : Draft} {cs rest : List Char}

theorem readStatements?_congr {cs' : List Char} (h : skipSpace false cs = skipSpace false cs') :
    readStatements? fuel d cs = readStatements? fuel d cs' := by
  cases fuel with
  | zero => rfl
  | succ fuel => rw [readStatements?, readStatements?, h]

theorem readStatements?_lineFeed : readStatements? fuel d ('\n' :: rest) =
    readStatements? fuel d rest := readStatements?_congr rfl

theorem readStatements?_none {c : Char} (hspace : skipSpace false cs = c :: rest)
    (h : takeStatement? (c :: rest) = none) : readStatements? fuel d cs = none := by
  cases fuel with
  | zero => rfl
  | succ fuel =>
    rw [readStatements?, hspace]
    simp [h]

theorem readStatements?_statement {s : Statement} (hspace : skipSpace false cs = cs)
    (h : takeStatement? cs = some (s, '\n' :: rest)) : readStatements? (fuel + 1) d cs =
      (d.add s).bind fun d => readStatements? fuel d rest := by
  cases cs with
  | nil => cases h
  | cons c cs =>
    have hend : endsLine false ('\n' :: rest) = true := rfl
    rw [readStatements?, hspace]
    simp [h, hend, readStatements?_lineFeed]

theorem readStatements?_definition {name : String} {t : Toml} {root : Node.Members}
    (h : takesBlock name = false) (ht : t.IsPlain) (hlevels : t.levels < depthLimit)
    (hnew : name ∉ root.names) :
    readStatements? (fuel + 1) ⟨root, []⟩ (definition name t ++ '\n' :: rest) =
      readStatements? fuel ⟨root ++ [(name, .value t)], []⟩ rest := by
  have hadd : Draft.add ⟨root, []⟩ (.define name [] t) = some ⟨root ++ [(name, .value t)], []⟩ := by
    have hcontains : root.contains name = false := by
      rwa [Bool.eq_false_iff, Ne, Entries.contains_iff]
    simp [Draft.add, Node.Members.underHeader, Node.Members.define, hcontains,
      Entries.put_of_not_mem hnew]
  rw [readStatements?_statement ((startsValue_definition name t).append _).skipSpace_eq
    ((takeStatement?_definition h ht rest).trans (if_pos hlevels)), hadd, Option.bind_some]

theorem readStatements?_noDefinition {name : String} {t : Toml}
    (h : takeStatement? (definition name t ++ rest) = none) :
    readStatements? fuel d (definition name t ++ rest) = none := by
  have hspace := ((startsValue_definition name t).append rest).skipSpace_eq
  cases hcs : definition name t ++ rest with
  | nil => simp [definition] at hcs
  | cons c cs =>
    rw [hcs] at h hspace
    exact readStatements?_none hspace h

end Statements

end Toml

namespace Bindings

open Toml

/-! ### Lines of bindings -/

/-- The line of a binding is read as what it says: its name is a key and its lists are not too deep for
a line, or its texts can be shown in a comment. -/
def FitsLine (name : String) (v : Value) : Prop :=
  match v.toml? with
  | some t => takesBlock name = false ∧ t.levels < 80
  | none => ∀ s, .text s ∈ v.leaves → '\x7f' ∉ s.toList

def entries (bindings : Entries Value) : Toml.Table :=
  bindings.filterMap fun b => b.2.toml?.map fun t => (b.1, t)

section Lines

variable {name : String} {v : Value} {t : Toml}

theorem FitsLine.definition (h : FitsLine name v) (ht : v.toml? = some t) :
    takesBlock name = false ∧ t.levels < depthLimit := by
  rw [FitsLine, ht] at h
  exact h

theorem toList_tomlLine_some (h : v.toml? = some t) :
    (tomlLine name v).toList = definition name t := by
  simp [tomlLine, h, definition]

def remark (name : String) (v : Value) : List Char :=
  ' ' :: ((keyText name).toList ++ ' ' :: '=' :: ' ' :: v.json.render.toList)

theorem toList_tomlLine_none (h : v.toml? = none) :
    (tomlLine name v).toList = '#' :: remark name v := by
  simp [tomlLine, h, remark]

theorem mem_remark {c : Char} (hc : isForbidden c = true) (hname : '\n' ∉ name.toList) :
    c ∈ remark name v ↔ c = '\x7f' ∧ ∃ s, .text s ∈ v.leaves ∧ c ∈ s.toList := by
  have hmarks : c ≠ ' ' ∧ c ≠ '=' := by constructor <;> rintro rfl <;> cases hc
  have hkey := not_mem_of_isClear hc (isClear_keyText hname)
  simp [remark, hmarks, hkey, mem_json_render hc v]

theorem skipSpace_remark (h : v.toml? = none) (hname : '\n' ∉ name.toList) (hfits : FitsLine name v)
    (rest : List Char) : skipSpace false ((tomlLine name v).toList ++ '\n' :: rest) =
      skipSpace false rest := by
  rw [FitsLine, h] at hfits
  have hclear : IsClear (remark name v) := fun c hc => by
    by_contra hforbidden
    rw [Bool.not_eq_false] at hforbidden
    obtain ⟨rfl, s, hs, hmem⟩ := (mem_remark hforbidden hname).1 hc
    exact hfits s hs hmem
  rw [toList_tomlLine_none h]
  exact skipSpace_comment hclear rest

/-- A line that does not fit is the end of the document, whatever follows. -/
theorem readStatements?_unfit (hname : v.toml? = none → '\n' ∉ name.toList) (h : ¬ FitsLine name v)
    (fuel : ℕ) (d : Draft) (rest : List Char) :
    readStatements? fuel d ((tomlLine name v).toList ++ '\n' :: rest) = none := by
  cases ht : v.toml? with
  | some t =>
    simp only [FitsLine, ht] at h
    rw [toList_tomlLine_some ht]
    refine readStatements?_noDefinition ?_
    cases hblock : takesBlock name with
    | true => exact takeStatement?_block hblock _
    | false =>
      have hlevels : ¬ t.levels < depthLimit := fun hlevels => h ⟨hblock, hlevels⟩
      rw [takeStatement?_definition hblock (Value.isPlain_of_toml? ht), if_neg hlevels]
  | none =>
    rw [FitsLine, ht] at h
    have hdelete : isForbidden '\x7f' = true := rfl
    have hmem : '\x7f' ∈ remark name v := by
      refine (mem_remark hdelete (hname ht)).2 ⟨rfl, ?_⟩
      simpa using h
    obtain ⟨cs, hcs⟩ := exists_skipSpace_delete
      (fun c hc hforbidden => ((mem_remark hforbidden (hname ht)).1 hc).1) hmem ('\n' :: rest)
    rw [toList_tomlLine_none ht]
    exact readStatements?_none hcs (takeStatement?_delete cs)

end Lines

/-! ### Documents of bindings -/

section Documents

variable {bindings : Entries Value}

theorem toList_toml_cons (b : String × Value) (bindings : Entries Value) :
    (Bindings.toml (b :: bindings)).toList =
      (tomlLine b.1 b.2).toList ++ '\n' :: (Bindings.toml bindings).toList := by
  simp [Bindings.toml, String.join_cons]

theorem readStatements?_toml : ∀ (bindings : Entries Value) (root : Node.Members) (fuel : ℕ),
    bindings.names.Nodup → (∀ b ∈ bindings, b.1 ∉ root.names) →
    (∀ b ∈ bindings, b.2.toml? = none → '\n' ∉ b.1.toList) →
    (∀ b ∈ bindings, FitsLine b.1 b.2) → (Bindings.toml bindings).toList.length < fuel →
      readStatements? fuel ⟨root, []⟩ (Bindings.toml bindings).toList =
        some ⟨root ++ (entries bindings).map fun e => (e.1, .value e.2), []⟩
  | _, _, 0, _, _, _, _, hfuel => by omega
  | [], root, fuel + 1, _, _, _, _, _ => by
    show some _ = some _
    rw [entries, List.filterMap_nil, List.map_nil, List.append_nil]
  | (name, v) :: rest, root, fuel + 1, hdistinct, hnew, hnames, hfits, hfuel => by
    obtain ⟨hname, hrest⟩ := List.nodup_cons.1 hdistinct
    obtain ⟨hnew₁, hnew₂⟩ := List.forall_mem_cons.1 hnew
    obtain ⟨hnames₁, hnames₂⟩ := List.forall_mem_cons.1 hnames
    obtain ⟨hfits₁, hfits₂⟩ := List.forall_mem_cons.1 hfits
    rw [toList_toml_cons] at hfuel ⊢
    rw [List.length_append, List.length_cons] at hfuel
    cases ht : v.toml? with
    | some t =>
      -- a document refuses a key that it has, so the names that follow must differ from this one
      have hnew₃ : ∀ b ∈ rest, b.1 ∉ Entries.names (root ++ [(name, .value t)]) := by
        intro b hb hmem
        rw [Entries.names, List.map_append, List.mem_append] at hmem
        refine hmem.elim (hnew₂ b hb) fun hmem => hname ?_
        exact List.mem_map.2 ⟨b, hb, List.mem_singleton.1 hmem⟩
      obtain ⟨hblock, hlevels⟩ := hfits₁.definition ht
      rw [toList_tomlLine_some ht, readStatements?_definition hblock (Value.isPlain_of_toml? ht)
          hlevels hnew₁,
        readStatements?_toml rest _ fuel hrest hnew₃ hnames₂ hfits₂ (by omega)]
      simp [entries, ht]
    | none =>
      rw [readStatements?_congr (skipSpace_remark ht (hnames₁ ht) hfits₁ _),
        readStatements?_toml rest root (fuel + 1) hrest hnew₂ hnames₂ hfits₂ (by omega)]
      simp [entries, ht]

theorem readStatements?_toml_unfit : ∀ (bindings : Entries Value) (fuel : ℕ) (d : Draft),
    (∀ b ∈ bindings, b.2.toml? = none → '\n' ∉ b.1.toList) →
    (¬ ∀ b ∈ bindings, FitsLine b.1 b.2) →
      readStatements? fuel d (Bindings.toml bindings).toList = none
  | [], _, _, _, h => absurd (fun _ hb => nomatch hb) h
  | (name, v) :: rest, fuel, d, hnames, h => by
    obtain ⟨hname, hnames⟩ := List.forall_mem_cons.1 hnames
    rw [toList_toml_cons]
    by_cases hfits : FitsLine name v
    · have hrest : ¬ ∀ b ∈ rest, FitsLine b.1 b.2 := fun hrest =>
        h (List.forall_mem_cons.2 ⟨hfits, hrest⟩)
      have ih := fun fuel d => readStatements?_toml_unfit rest fuel d hnames hrest
      cases ht : v.toml? with
      | some t =>
        cases fuel with
        | zero => rfl
        | succ fuel =>
          obtain ⟨hblock, hlevels⟩ := hfits.definition ht
          rw [toList_tomlLine_some ht, readStatements?_statement
            ((startsValue_definition name t).append _).skipSpace_eq
            ((takeStatement?_definition hblock (Value.isPlain_of_toml? ht) _).trans
              (if_pos hlevels))]
          simp [ih]
      | none =>
        rw [readStatements?_congr (skipSpace_remark ht (hname ht) hfits _)]
        exact ih fuel d
    · exact readStatements?_unfit hname hfits fuel d _

theorem read?_toml (bindings : Entries Value) : Toml.read? (Bindings.toml bindings) =
    (readStatements? ((Bindings.toml bindings).toList.length + 1) {}
      (Bindings.toml bindings).toList).map fun d => d.root.table := by
  have hmark : ∀ cs, (Bindings.toml bindings).toList ≠ '\ufeff' :: cs := by
    cases bindings with
    | nil => exact fun cs h => by cases h
    | cons b rest =>
      intro cs h
      rw [toList_toml_cons] at h
      cases ht : b.2.toml? with
      | some t =>
        obtain ⟨c, key, hkey, hc⟩ := exists_keyText b.1
        rw [toList_tomlLine_some ht, definition, hkey] at h
        obtain rfl : c = '\ufeff' := (List.cons.inj h).1
        revert hc
        decide
      | none =>
        rw [toList_tomlLine_none ht] at h
        exact absurd (List.cons.inj h).1 (by decide)
  unfold Toml.read?
  dsimp only
  split
  · exact absurd ‹_› (hmark _)
  · rfl

theorem membersToml_values (es : Toml.Table) :
    Node.membersToml (es.map fun e => (e.1, Node.value e.2)) = es := by
  induction es with
  | nil => rfl
  | cons e es ih => rw [List.map_cons, Node.membersToml, ih]; rfl

end Documents

/-! ### The way back -/

section Back

variable {bindings : Entries Value}

/-- The globals are the bindings with a TOML form, in the order of their names. -/
def Restores (bindings : Entries Value) (globals : List (String × Value)) : Prop :=
  List.Forall₂ (fun b g => g.1 = b.1 ∧ b.2.equals g.2 = true)
    (Entries.sorted (bindings.filter fun b => b.2.toml?.isSome)) globals

theorem exists_ofTable : ∀ {bindings : Entries Value}, (∀ b ∈ bindings, b.2.toml?.isSome = true) →
    (∀ b ∈ bindings, b.2.IsComparable) → ∃ globals, ofTable (entries bindings) = .ok globals ∧
      List.Forall₂ (fun b g => g.1 = b.1 ∧ b.2.equals g.2 = true) bindings globals
  | [], _, _ => ⟨[], rfl, .nil⟩
  | (name, v) :: rest, hsome, hcomparable => by
    obtain ⟨hsome₁, hsome₂⟩ := List.forall_mem_cons.1 hsome
    obtain ⟨hcomparable₁, hcomparable₂⟩ := List.forall_mem_cons.1 hcomparable
    obtain ⟨t, ht⟩ := Option.isSome_iff_exists.1 hsome₁
    obtain ⟨v', hv', hequal⟩ := Value.exists_ofToml ht hcomparable₁
    obtain ⟨globals, hglobals, hall⟩ := exists_ofTable hsome₂ hcomparable₂
    refine ⟨(name, v') :: globals, ?_, .cons ⟨rfl, hequal⟩ hall⟩
    have hentries : entries ((name, v) :: rest) = (name, t) :: entries rest := by
      simp [entries, show v.toml? = some t from ht]
    rw [hentries, ofTable, hv', hglobals]
    rfl

theorem sorted_entries (bindings : Entries Value) : Entries.sorted (entries bindings) =
    entries (Entries.sorted (bindings.filter fun b => b.2.toml?.isSome)) := by
  let f : String × Value → String × Toml := fun b => (b.1, b.2.toml?.getD default)
  have hmap : ∀ es : Entries Value, (∀ b ∈ es, b.2.toml?.isSome = true) → entries es = es.map f := by
    intro es hes
    rw [entries, ← List.filterMap_eq_map]
    refine List.filterMap_congr fun b hb => ?_
    obtain ⟨t, ht⟩ := Option.isSome_iff_exists.1 (hes b hb)
    simp [f, ht]
  have hfilter : entries bindings = entries (bindings.filter fun b => b.2.toml?.isSome) := by
    rw [entries, entries, List.filterMap_filter]
    refine List.filterMap_congr fun b _ => ?_
    cases b.2.toml? <;> rfl
  have hsome : ∀ b ∈ bindings.filter fun b => b.2.toml?.isSome, b.2.toml?.isSome = true :=
    fun b hb => (List.mem_filter.1 hb).2
  rw [hfilter, hmap _ hsome, hmap (Entries.sorted _) fun b hb => hsome b (List.mem_mergeSort.1 hb)]
  exact (List.map_mergeSort (f := f) (r := fun a b => decide (a.1 ≤ b.1))
    (s := fun a b => decide (a.1 ≤ b.1)) fun _ _ _ _ => rfl).symm

theorem globalsOfText_toml_unfit (hnames : ∀ b ∈ bindings, b.2.toml? = none → '\n' ∉ b.1.toList)
    (h : ¬ ∀ b ∈ bindings, FitsLine b.1 b.2) (path : String) :
    Command.globalsOfText path (Bindings.toml bindings) = .error (.notToml path) := by
  rw [Command.globalsOfText, read?_toml, readStatements?_toml_unfit _ _ _ hnames h]
  rfl

/-- The bindings that a run prints can be the globals of the next run just if each of them fits its
line. What is in a comment has a name without line feeds here, as behind one the comment is over. -/
theorem globalsOfText_toml_iff (hdistinct : bindings.names.Nodup)
    (hcomparable : ∀ b ∈ bindings, b.2.IsComparable)
    (hnames : ∀ b ∈ bindings, b.2.toml? = none → '\n' ∉ b.1.toList) (path : String) :
    (∃ globals, Command.globalsOfText path (Bindings.toml bindings) = .ok globals ∧
      Restores bindings globals) ↔ ∀ b ∈ bindings, FitsLine b.1 b.2 := by
  constructor
  · rintro ⟨globals, hglobals, -⟩
    by_contra h
    rw [globalsOfText_toml_unfit hnames h] at hglobals
    cases hglobals
  · intro hfits
    have hread : Toml.read? (Bindings.toml bindings) = some (Entries.sorted (entries bindings)) := by
      rw [read?_toml, readStatements?_toml bindings [] _ hdistinct (fun _ _ => List.not_mem_nil)
        hnames hfits (Nat.lt_succ_self _), Option.map_some, List.nil_append, Node.Members.table,
        membersToml_values]
    have hmem : ∀ b ∈ Entries.sorted (bindings.filter fun b => b.2.toml?.isSome),
        b ∈ bindings ∧ b.2.toml?.isSome = true := fun b hb =>
      List.mem_filter.1 (List.mem_mergeSort.1 hb)
    obtain ⟨globals, hglobals, hall⟩ := exists_ofTable (fun b hb => (hmem b hb).2)
      (fun b hb => hcomparable b (hmem b hb).1)
    refine ⟨globals, ?_, hall⟩
    rw [Command.globalsOfText, hread]
    dsimp only
    rw [sorted_entries, hglobals]

def threeLines : Entries Value :=
  [("two words", .list [.text "a\nb", .list [.boolean true]]), ("gone", .list [.null, .text "#"]),
    ("count", .number 3)]

theorem threeLines_restored : (threeLines.names.Nodup ∧ (∀ b ∈ threeLines, b.2.IsComparable) ∧
      ∀ b ∈ threeLines, b.2.toml? = none → '\n' ∉ b.1.toList) ∧
    ∃ globals, Command.globalsOfText "globals.toml" (Bindings.toml threeLines) = .ok globals ∧
      Restores threeLines globals := by
  have hdistinct : threeLines.names.Nodup := by decide
  have hcomparable : ∀ b ∈ threeLines, b.2.IsComparable := by
    intro b hb x hx
    simp only [threeLines, List.mem_cons, List.not_mem_nil, or_false] at hb
    obtain rfl | rfl | rfl := hb
    · simp [Value.leaves, Value.leavesOfItems] at hx
    · simp [Value.leaves, Value.leavesOfItems] at hx
    · obtain rfl : x = 3 := by simpa [Value.leaves] using hx
      rfl
  have hnames : ∀ b ∈ threeLines, b.2.toml? = none → '\n' ∉ b.1.toList := by
    simp [threeLines]
  have hfits : ∀ b ∈ threeLines, FitsLine b.1 b.2 := by
    have hwords : takesBlock "two words" = false ∧ 2 < 80 := by decide
    have hcount : takesBlock "count" = false ∧ 0 < 80 := by decide
    have hgone : ∀ s, .text s ∈ Value.leaves (.list [.null, .text "#"]) → '\x7f' ∉ s.toList := by
      simp [Value.leaves, Value.leavesOfItems]
    exact List.forall_mem_cons.2 ⟨hwords, List.forall_mem_cons.2 ⟨hgone, List.forall_mem_singleton.2 hcount⟩⟩
  exact ⟨⟨hdistinct, hcomparable, hnames⟩,
    (globalsOfText_toml_iff hdistinct hcomparable hnames "globals.toml").2 hfits⟩

/-- A name with a line feed is written as a block, which is no key. -/
theorem lineFeedName_spoils_document : ¬ ∀ bindings : Entries Value, bindings.names.Nodup →
    (∀ b ∈ bindings, b.2.IsComparable) → ∃ globals,
      Command.globalsOfText "globals.toml" (Bindings.toml bindings) = .ok globals ∧
        Restores bindings globals := by
  intro h
  have hcomparable : Value.IsComparable (.number 1) := by
    intro x hx
    obtain rfl : x = 1 := by simpa [Value.leaves] using hx
    rfl
  have hform : (Value.number 1).toml? = some (.integer 1) := rfl
  have hunfit : ¬ FitsLine "a\nb" (.number 1) := by
    show ¬ (takesBlock "a\nb" = false ∧ 0 < 80)
    decide
  obtain ⟨globals, hglobals, -⟩ := h [("a\nb", .number 1)] (List.nodup_singleton _)
    (List.forall_mem_singleton.2 hcomparable)
  rw [globalsOfText_toml_unfit (by simp [hform]) (by simpa using hunfit)] at hglobals
  cases hglobals

end Back

end Bindings

end Blockwork
