import Blockwork.Proofs.Target.Grammar

/-! The rules of the grammar as statements on what is read. They hold for readers that go deep enough
for the tokens: every rule passes on the depth that its parts need. -/

namespace Blockwork.Target

theorem BinaryOp.ofSymbol?_symbol (op : BinaryOp) : BinaryOp.ofSymbol? op.symbol = some op := by
  cases op <;> decide

theorem BinaryOp.strength_bounds (op : BinaryOp) :
    conditionalStrength < op.strength ∧ op.strength < unaryStrength := by
  cases op <;> decide

/-- The tokens begin with a phrase that binds at least as strongly as asked. -/
structure Reads (least : Nat) (ts : List Token) (t : Tree) (rest : List Token) : Prop where
  shorter : rest.length < ts.length
  gives : ∀ n, 16 * ts.length + 13 ≤ n + least → (readers n).phrase least ts = some (t, rest)

structure Continues (k : Nat) (left : Tree) (ts : List Token) (t : Tree) (rest : List Token) :
    Prop where
  shorter : rest.length ≤ ts.length
  gives : ∀ n, 16 * ts.length + 14 ≤ n → (readers n).more k left ts = some (t, rest)

structure ReadsItems (ts : List Token) (items : List Tree) (rest : List Token) : Prop where
  shorter : rest.length < ts.length
  gives : ∀ n, 16 * ts.length + 14 ≤ n → (readers n).items ts = some (items, rest)

structure ReadsArgs (mark : String) (ts : List Token) (args : List Tree) (rest : List Token) :
    Prop where
  shorter : rest.length < ts.length
  gives : ∀ n, 16 * ts.length + 14 ≤ n → (readers n).args mark ts = some (args, rest)

variable {k n : Nat} {ts rest r₁ r₂ : List Token} {t t' left right : Tree}

theorem Reads.of_next (hk : k ≤ atomStrength) (hshorter : rest.length < ts.length)
    (h : ∀ n, 16 * ts.length + 12 ≤ n + k → (readers n).phraseFrom k ts = some (t, rest)) :
    Reads k ts t rest := by
  have hk : k ≤ 12 := hk
  refine ⟨hshorter, fun n hn => ?_⟩
  obtain ⟨m, rfl⟩ : ∃ m, n = m + 1 := ⟨n - 1, by omega⟩
  exact h m (by omega)

theorem Continues.of_next (hshorter : rest.length ≤ ts.length)
    (h : ∀ n, 16 * ts.length + 13 ≤ n → (readers n).moreFrom k left ts = some (t, rest)) :
    Continues k left ts t rest := by
  refine ⟨hshorter, fun n hn => ?_⟩
  obtain ⟨m, rfl⟩ : ∃ m, n = m + 1 := ⟨n - 1, by omega⟩
  exact h m (by omega)

/-! ### What goes on to the right -/

/-- The greatest strength of a phrase that goes on with the token. -/
def Token.reach : Token → Nat
  | .sign s =>
    if s = "(" then atomStrength
    else if s = "." then postfixStrength
    else if s = "?" then conditionalStrength
    else if s = "=" then assignStrength
    else match BinaryOp.ofSymbol? s with
      | some op => op.strength
      | none => 0
  | _ => 0

def Stops (k : Nat) (ts : List Token) : Prop := ∀ t ∈ ts.head?, t.reach < k

theorem Stops.mono {k' : Nat} (h : Stops k ts) (hk : k ≤ k') : Stops k' ts :=
  fun t ht => Nat.lt_of_lt_of_le (h t ht) hk

theorem reach_of_op {s : String} {op : BinaryOp} (h : BinaryOp.ofSymbol? s = some op) :
    (Token.sign s).reach = op.strength := by
  have hnone : ∀ s ∈ [".", "(", "?", "="], BinaryOp.ofSymbol? s = none := by decide
  have hs : ∀ mark ∈ [".", "(", "?", "="], s ≠ mark := by
    rintro mark hmark rfl
    rw [hnone s hmark] at h
    exact absurd h (by simp)
  rw [Token.reach, if_neg (by simp [hs]), if_neg (by simp [hs]), if_neg (by simp [hs]),
    if_neg (by simp [hs]), h]

theorem Continues.stop (h : Stops k ts) : Continues k left ts left ts := by
  refine .of_next (Nat.le_refl _) fun n _ => ?_
  cases ts with
  | nil => rfl
  | cons t rest =>
    have ht : t.reach < k := h t rfl
    cases t with
    | sign s =>
      have hpoint : ¬ (s = "." ∧ k = postfixStrength) := by
        rintro ⟨rfl, rfl⟩
        exact absurd ht (by decide)
      have hchoice : ¬ (s = "?" ∧ k = conditionalStrength) := by
        rintro ⟨rfl, rfl⟩
        exact absurd ht (by decide)
      have hequal : ¬ (s = "=" ∧ k = assignStrength) := by
        rintro ⟨rfl, rfl⟩
        exact absurd ht (by decide)
      rw [Readers.moreFrom, if_neg hpoint, if_neg hchoice, if_neg hequal]
      cases hop : BinaryOp.ofSymbol? s with
      | none => rfl
      | some op =>
        rw [reach_of_op hop] at ht
        exact if_neg (Nat.ne_of_lt ht)
    | _ => rfl

theorem Continues.operator (op : BinaryOp)
    (hright : Reads (if op = .power then op.strength else op.strength + 1) r₁ right r₂)
    (h : Continues op.strength (.binary op left right) r₂ t rest) :
    Continues op.strength left (.sign op.symbol :: r₁) t rest := by
  have hsymbol : ∀ mark ∈ [".", "?", "="], op.symbol ≠ mark := by cases op <;> decide
  have hr₂ := hright.shorter
  have hrest := h.shorter
  refine .of_next (by rw [List.length_cons]; omega) fun n hn => ?_
  rw [List.length_cons] at hn
  rw [Readers.moreFrom, if_neg (by simp [hsymbol]), if_neg (by simp [hsymbol]),
    if_neg (by simp [hsymbol]), BinaryOp.ofSymbol?_symbol]
  have hop : (readers n).operate op left r₁ = some (t, rest) := by
    rw [Readers.operate, hright.gives n (by omega)]
    exact h.gives n (by omega)
  exact (if_pos rfl).trans hop

theorem Continues.member {name : String} (hparen : ∀ u ∈ r₁.head?, u ≠ .sign "(")
    (h : Continues postfixStrength (.member left name) r₁ t rest) :
    Continues postfixStrength left (.sign "." :: .word name :: r₁) t rest := by
  have hrest := h.shorter
  refine .of_next (by simp only [List.length_cons]; omega) fun n hn => ?_
  simp only [List.length_cons] at hn
  rw [Readers.moreFrom, if_pos ⟨rfl, rfl⟩, Readers.select]
  · exact h.gives n (by omega)
  · rintro r rfl
    exact hparen _ rfl rfl

theorem Continues.method {name : String} {args : List Tree} (hargs : ReadsArgs ")" r₁ args r₂)
    (h : Continues postfixStrength (.method left name args) r₂ t rest) :
    Continues postfixStrength left (.sign "." :: .word name :: .sign "(" :: r₁) t rest := by
  have hr₂ := hargs.shorter
  have hrest := h.shorter
  refine .of_next (by simp only [List.length_cons]; omega) fun n hn => ?_
  simp only [List.length_cons] at hn
  rw [Readers.moreFrom, if_pos ⟨rfl, rfl⟩, Readers.select, hargs.gives n (by omega)]
  exact h.gives n (by omega)

theorem Continues.assign {written : String} (h : Reads assignStrength r₁ t rest) :
    Continues assignStrength (.name written) (.sign "=" :: r₁) (.assign written t) rest := by
  have hrest := h.shorter
  refine .of_next (by rw [List.length_cons]; omega) fun n hn => ?_
  rw [List.length_cons] at hn
  have hvalue : (readers n).assign (.name written) r₁ = some (.assign written t, rest) := by
    simp [Readers.assign, h.gives n (by omega)]
  exact hvalue

theorem closed_eq {α : Type} {mark : String} {read : Reader α} {a : α}
    (h : read ts = some (a, .sign mark :: rest)) : closed mark read ts = some (a, rest) := by
  rw [closed, h]
  exact if_pos rfl

theorem Continues.conditional (hthen : Reads assignStrength r₁ t (.sign ":" :: r₂))
    (helse : Reads assignStrength r₂ t' rest) :
    Continues conditionalStrength left (.sign "?" :: r₁) (.conditional left t t') rest := by
  have hr₂ := hthen.shorter
  have hrest := helse.shorter
  rw [List.length_cons] at hr₂
  refine .of_next (by rw [List.length_cons]; omega) fun n hn => ?_
  rw [List.length_cons] at hn
  have hchoose : (readers n).choose left r₁ = some (.conditional left t t', rest) := by
    rw [Readers.choose, closed_eq (hthen.gives n (by omega))]
    show ((readers n).phrase assignStrength r₂ >>= _) = _
    rw [helse.gives n (by omega)]
    rfl
  exact hchoose

/-! ### Phrases -/

/-- A phrase goes on as a looser one. Where a prefix operator may stand, it does not. -/
theorem Reads.continue (hk : k < atomStrength)
    (hplain : k = 9 ∨ k = unaryStrength → prefix? ts = none) (h : Reads (k + 1) ts left r₁)
    (hmore : Continues k left r₁ t rest) : Reads k ts t rest := by
  have hk' : k < 12 := hk
  have hr₁ := h.shorter
  have hrest := hmore.shorter
  refine .of_next (Nat.le_of_lt hk) (by omega) fun n hn => ?_
  have hnone : (if k = 9 ∨ k = unaryStrength then prefix? ts else none) = none := by
    split
    · exact hplain ‹_›
    · rfl
  rw [Readers.phraseFrom, if_neg (Nat.not_le.2 hk), hnone]
  show ((readers n).phrase (k + 1) ts >>= fun r => (readers n).more k r.1 r.2) = _
  rw [h.gives n (by omega)]
  exact hmore.gives n (by omega)

theorem Reads.prefix?_eq_none (h : Reads postfixStrength ts t rest) : prefix? ts = none := by
  have hatom : (readers (16 * ts.length + 16)).atom ts ≠ none := by
    intro hnone
    have hread : ((readers (16 * ts.length + 16)).atom ts >>= fun r =>
        (readers (16 * ts.length + 17)).more postfixStrength r.1 r.2) = some (t, rest) :=
      h.gives (16 * ts.length + 18) (by omega)
    rw [hnone] at hread
    exact absurd hread (by simp)
  unfold prefix?
  split
  · exact absurd rfl hatom
  · exact absurd rfl hatom
  · exact absurd rfl hatom
  · rfl

theorem prefix?_token (op : UnaryOp) (ts : List Token) :
    prefix? (op.token :: ts) = some (op, ts) := by
  cases op <;> rfl

theorem Reads.unary (op : UnaryOp) (h : Reads unaryStrength r₁ t rest) :
    Reads unaryStrength (op.token :: r₁) (.unary op t) rest := by
  have hrest := h.shorter
  refine .of_next (by decide) (by rw [List.length_cons]; omega) fun n hn => ?_
  rw [List.length_cons] at hn
  rw [Readers.phraseFrom, if_neg (by decide), if_pos (.inr rfl), prefix?_token]
  have hop : (readers n).unary op r₁ = some (.unary op t, rest) := by
    simp [Readers.unary, h.gives n (by omega)]
  exact hop

theorem Reads.looser (hk : k < atomStrength) (h : Reads (k + 1) ts t rest) (hstops : Stops k rest) :
    Reads k ts t rest := by
  by_cases hplace : k = 9 ∨ k = unaryStrength
  · cases hplain : prefix? ts with
    | none => exact h.continue hk (fun _ => hplain) (.stop hstops)
    | some found =>
      rcases hplace with rfl | rfl
      · -- Both places read a prefix operator alike.
        refine .of_next (by decide) h.shorter fun n hn => ?_
        have hunary : (readers n).phraseFrom unaryStrength ts = some (t, rest) :=
          h.gives (n + 1) (by omega)
        rw [Readers.phraseFrom, if_neg (by decide), if_pos (.inr rfl)] at hunary
        rw [Readers.phraseFrom, if_neg (by decide), if_pos (.inl rfl), hplain]
        rw [hplain] at hunary
        exact hunary
      · rw [Reads.prefix?_eq_none h] at hplain
        exact absurd hplain (by simp)
  · exact h.continue hk (fun hplace' => absurd hplace' hplace) (.stop hstops)

theorem Reads.down {l : Nat} (hl : l ≤ atomStrength) (hkl : k ≤ l) (h : Reads l ts t rest)
    (hstops : Stops k rest) : Reads k ts t rest := by
  obtain ⟨d, rfl⟩ := Nat.exists_eq_add_of_le hkl
  induction d with
  | zero => exact h
  | succ d ih =>
    exact ih (Nat.le_of_succ_le hl) (Nat.le_add_right k d)
      (h.looser hl (hstops.mono (Nat.le_add_right k d)))

/-! ### Atoms -/

theorem Reads.of_atom (hshorter : rest.length < ts.length)
    (h : ∀ n, 16 * ts.length ≤ n → (readers n).atom ts = some (t, rest)) :
    Reads atomStrength ts t rest := by
  refine .of_next (Nat.le_refl _) hshorter fun n hn => ?_
  have hn : 16 * ts.length + 12 ≤ n + 12 := hn
  rw [Readers.phraseFrom, if_pos (Nat.le_refl _)]
  exact h n (by omega)

theorem Reads.constant {w : String} (h : constants.lookup w = some t) :
    Reads atomStrength (.word w :: rest) t rest := by
  have hhelper : w ∉ helpers := by
    intro hw
    have hnone : ∀ w ∈ helpers, constants.lookup w = none := by decide
    rw [hnone w hw] at h
    exact absurd h (by simp)
  refine .of_atom (Nat.lt_succ_self _) fun n _ => ?_
  rw [Readers.atom, Readers.word, if_neg hhelper, h]

theorem Reads.name {w : String} (h : w ∉ reserved) :
    Reads atomStrength (.word w :: rest) (.name w) rest := by
  have hhelpers : ∀ w ∈ helpers, w ∈ reserved := by decide
  have hconstants : ∀ p ∈ constants, p.1 ∈ reserved := by decide
  have hlookup : constants.lookup w = none := by
    refine List.lookup_eq_none_iff.2 fun p hp => bne_iff_ne.2 ?_
    rintro rfl
    exact h (hconstants p hp)
  refine .of_atom (Nat.lt_succ_self _) fun n _ => ?_
  rw [Readers.atom, Readers.word, if_neg fun hw => h (hhelpers w hw), hlookup]
  exact if_neg h

theorem Reads.numeral (digits : String) :
    Reads atomStrength (.numeral digits :: rest) (.numeral digits) rest :=
  .of_atom (Nat.lt_succ_self _) fun _ _ => rfl

theorem Reads.text (content : String) :
    Reads atomStrength (.text content :: rest) (.text content) rest :=
  .of_atom (Nat.lt_succ_self _) fun _ _ => rfl

theorem Reads.paren (h : Reads assignStrength ts t (.sign ")" :: rest)) :
    Reads atomStrength (.sign "(" :: ts) t rest := by
  have hrest := h.shorter
  rw [List.length_cons] at hrest
  refine .of_atom (by rw [List.length_cons]; omega) fun n hn => ?_
  rw [List.length_cons] at hn
  exact closed_eq (h.gives n (by omega))

theorem Reads.list {items : List Tree} (h : ReadsArgs "]" ts items rest) :
    Reads atomStrength (.sign "[" :: ts) (.list items) rest := by
  have hrest := h.shorter
  refine .of_atom (by rw [List.length_cons]; omega) fun n hn => ?_
  rw [List.length_cons] at hn
  rw [Readers.atom, h.gives n (by omega)]
  rfl

theorem takeNames_append (names : List String) (ts : List Token) :
    takeNames (names.flatMap (fun name => [.sign ".", .word name]) ++ .sign "(" :: ts) =
      (names, .sign "(" :: ts) := by
  induction names with
  | nil => rfl
  | cons name names ih =>
    rw [List.flatMap_cons, List.append_assoc, List.cons_append, List.cons_append, List.nil_append,
      takeNames, ih]

theorem Reads.call {head : String} {names : List String} {args : List Tree} (hhead : head ∈ helpers)
    (h : ReadsArgs ")" ts args rest) :
    Reads atomStrength (.word head ::
        (names.flatMap (fun name => [.sign ".", .word name]) ++ .sign "(" :: ts))
      (.call (head ++ dotted names) args) rest := by
  have hrest := h.shorter
  refine .of_atom (by simp only [List.length_cons, List.length_append]; omega) fun n hn => ?_
  simp only [List.length_cons, List.length_append] at hn
  rw [Readers.atom, Readers.word, if_pos hhead, Readers.call, takeNames_append]
  show ((readers n).args ")" ts).map _ = _
  rw [h.gives n (by omega)]
  rfl

/-! ### Items -/

theorem ReadsItems.of_next {items : List Tree} (hshorter : rest.length < ts.length)
    (h : ∀ n, 16 * ts.length + 13 ≤ n → (readers n).itemsFrom ts = some (items, rest)) :
    ReadsItems ts items rest := by
  refine ⟨hshorter, fun n hn => ?_⟩
  obtain ⟨m, rfl⟩ : ∃ m, n = m + 1 := ⟨n - 1, by omega⟩
  exact h m (by omega)

theorem ReadsItems.last (h : Reads assignStrength ts t rest)
    (hcomma : ∀ u ∈ rest.head?, u ≠ .sign ",") : ReadsItems ts [t] rest := by
  refine .of_next h.shorter fun n hn => ?_
  unfold Readers.itemsFrom
  rw [h.gives n (by omega)]
  dsimp only [Option.bind_eq_bind, Option.bind_some]
  split
  · exact absurd rfl (hcomma _ rfl)
  · rfl

theorem ReadsItems.cons {items : List Tree} (h : Reads assignStrength ts t (.sign "," :: r₁))
    (hmore : ReadsItems r₁ items rest) : ReadsItems ts (t :: items) rest := by
  have hr₁ := h.shorter
  have hrest := hmore.shorter
  rw [List.length_cons] at hr₁
  refine .of_next (by omega) fun n hn => ?_
  unfold Readers.itemsFrom
  rw [h.gives n (by omega)]
  show ((readers n).items r₁).map _ = _
  rw [hmore.gives n (by omega)]
  rfl

theorem phrase_eq_none (hplain : prefix? ts = none) (hatom : ∀ r : Readers, r.atom ts = none) :
    ∀ n k, (readers n).phrase k ts = none
  | 0, _ => rfl
  | n + 1, k => by
    show (readers n).phraseFrom k ts = none
    unfold Readers.phraseFrom
    rw [hplain, ite_self, hatom, phrase_eq_none hplain hatom n (k + 1)]
    exact ite_self _

theorem phrase_close {mark : String} (hmark : mark = ")" ∨ mark = "]") (ts : List Token) (n k : Nat) :
    (readers n).phrase k (.sign mark :: ts) = none := by
  rcases hmark with rfl | rfl <;> exact phrase_eq_none rfl (fun _ => rfl) n k

theorem ReadsArgs.nil {mark : String} : ReadsArgs mark (.sign mark :: rest) [] rest :=
  ⟨Nat.lt_succ_self _, fun _ _ => if_pos rfl⟩

theorem ReadsArgs.of_items {mark : String} (hmark : mark = ")" ∨ mark = "]") {items : List Tree}
    (h : ReadsItems ts items (.sign mark :: rest)) : ReadsArgs mark ts items rest := by
  have hrest := h.shorter
  rw [List.length_cons] at hrest
  refine ⟨by omega, fun n hn => ?_⟩
  cases ts with
  | nil => exact absurd hrest (by simp)
  | cons u us =>
    have hu : u ≠ .sign mark := by
      rintro rfl
      have hitems : (readers (16 * (us.length + 1) + 14)).itemsFrom (.sign mark :: us) =
          some (items, .sign mark :: rest) := h.gives (16 * (us.length + 1) + 15) (by simp)
      unfold Readers.itemsFrom at hitems
      rw [phrase_close hmark us] at hitems
      exact absurd hitems (by simp)
    have hclosed := closed_eq (h.gives n hn)
    exact (if_neg hu).trans hclosed

end Blockwork.Target
