import Blockwork.Proofs.Target.Rules
import Blockwork.Proofs.Target.Written

/-! Reading the tokens of an expression gives the expression back. The induction goes along with
what stands to the right: an operator that groups to the left takes what is written in its own
strength for its left side. -/

namespace Blockwork.Target

/-- A negative number is the negation of the positive one, and any number is known by its text. -/
def numberShape (x : Float) : Tree :=
  if x < 0 then .unary .negate (.numeral (Number.text (-x))) else .numeral (Number.text x)

namespace Expr

mutual

def shape : Expr → Tree
  | .null => .null
  | .boolean b => .boolean b
  | .number n => numberShape n.value
  | .text s => .text s
  | .list items => .list (shapes items)
  | .variable name => .name (identifier name)
  | .assign name value => .assign (identifier name) value.shape
  | .unary op operand => .unary op operand.shape
  | .binary op left right => .binary op left.shape right.shape
  | .conditional condition thenExpr elseExpr =>
    .conditional condition.shape thenExpr.shape elseExpr.shape
  | .call function args => .call function (shapes args)
  | .method receiver name args => .method receiver.shape name (shapes args)
  | .member object property => .member object.shape property

def shapes : List Expr → List Tree
  | [] => []
  | e :: rest => e.shape :: shapes rest

end

end Expr

def groups (k : Nat) : Bool := (conditionalStrength < k && k < 9) || k = postfixStrength

/-- What follows an assignment or a conditional follows its last part, which may be either. -/
def outer (k : Nat) : Nat := if k = conditionalStrength then assignStrength else k

/-- How a phrase of a strength goes on: one that groups to the left may become the left side of
what follows, any other ends. -/
structure Goes (k : Nat) (left : Tree) (ts : List Token) (t : Tree) (rest : List Token) : Prop where
  stops : Stops (k + 1) ts
  more : Continues k left ts t rest
  alone : groups k = false → Stops (outer k) ts ∧ t = left ∧ rest = ts

variable {k l : Nat} {ts rest r₁ : List Token} {t left : Tree}

theorem outer_eq (h : k ≠ conditionalStrength) : outer k = k := if_neg h

theorem outer_le (k : Nat) : outer k ≤ k := by
  unfold outer
  split
  · rename_i h
    rw [h]
    decide
  · exact Nat.le_refl k

theorem outer_le_outer (h : k ≤ l) : outer k ≤ outer l := by
  unfold outer conditionalStrength assignStrength
  by_cases hk : k = 2 <;> by_cases hl : l = 2 <;> simp only [hk, hl, if_true, if_false] <;> omega

theorem assignStrength_le_outer (h : assignStrength ≤ k) : assignStrength ≤ outer k :=
  outer_le_outer h

theorem Goes.of_stops (h : Stops (outer k) ts) : Goes k left ts left ts :=
  have hk := h.mono (outer_le k)
  ⟨hk.mono (Nat.le_succ k), .stop hk, fun _ => ⟨h, rfl, rfl⟩⟩

theorem Goes.inner (h : Goes k left ts t rest) (hkl : k < l) : Stops (outer l) ts := by
  cases hgroups : groups k with
  | true =>
    have hl : outer l = l := by
      refine if_neg ?_
      rintro rfl
      have hk : ∀ k < conditionalStrength, groups k = false := by decide
      rw [hk k hkl] at hgroups
      exact absurd hgroups (by decide)
    rw [hl]
    exact h.stops.mono hkl
  | false => exact (h.alone hgroups).1.mono (outer_le_outer (Nat.le_of_lt hkl))

theorem Reads.goes (hk : k < atomStrength) (h : Reads (k + 1) ts left r₁)
    (hgoes : Goes k left r₁ t rest) : Reads k ts t rest := by
  cases hgroups : groups k with
  | true =>
    refine h.continue hk ?_ hgoes.more
    rintro (rfl | rfl) <;> exact absurd hgroups (by decide)
  | false =>
    obtain ⟨hstops, rfl, rfl⟩ := hgoes.alone hgroups
    exact h.looser hk (hstops.mono (outer_le k))

theorem identifier_not_mem_reserved (name : String) : identifier name ∉ reserved := by
  unfold identifier
  split
  · rename_i h
    rw [isPlain, Bool.and_eq_true, Bool.not_eq_true'] at h
    intro hmem
    rw [List.contains_iff_mem.2 hmem] at h
    exact absurd h.2 (by decide)
  · have hreserved : ∀ w ∈ reserved, w.toList.head? ≠ some '$' := by decide
    intro hmem
    exact hreserved _ hmem (by rw [String.toList_ofList]; rfl)

namespace Expr

theorem strength_bounds (e : Expr) : assignStrength ≤ e.strength ∧ e.strength ≤ atomStrength := by
  cases e
  case number n =>
    rw [strength]
    cases n.isNegative <;> exact ⟨of_decide_eq_true rfl, of_decide_eq_true rfl⟩
  case binary op left right =>
    obtain ⟨hlow, hhigh⟩ : 2 < op.strength ∧ op.strength < 10 := op.strength_bounds
    show 1 ≤ op.strength ∧ op.strength ≤ 12
    omega
  all_goals exact ⟨of_decide_eq_true rfl, of_decide_eq_true rfl⟩

/-- The bare tokens of the expression are read as it, and what follows is taken as its place
allows. -/
def ReadsBack (e : Expr) : Prop :=
  ∀ rest t rest', Goes e.strength e.shape rest t rest' →
    Reads e.strength (e.bareTokens ++ rest) t rest'

theorem stops_of_reach {u : Token} (h : u.reach < k) (ts : List Token) : Stops k (u :: ts) := by
  intro v hv
  obtain rfl : u = v := by simpa using hv
  exact h

theorem ReadsBack.paren {e : Expr} (he : e.ReadsBack) (rest : List Token) :
    Reads atomStrength (.sign "(" :: (e.bareTokens ++ .sign ")" :: rest)) e.shape rest := by
  obtain ⟨hlow, hhigh⟩ := e.strength_bounds
  have hmark : ∀ k, assignStrength ≤ k → Stops k (.sign ")" :: rest) := fun k hk =>
    stops_of_reach hk rest
  have hbare := he _ _ _ (.of_stops (hmark _ (assignStrength_le_outer hlow)))
  exact .paren (hbare.down hhigh hlow (hmark _ (by decide)))

theorem tokensAt_of_lt {e : Expr} (h : e.strength < k) (rest : List Token) :
    e.tokensAt k ++ rest = .sign "(" :: (e.bareTokens ++ .sign ")" :: rest) := by
  rw [Expr.tokensAt, wrapTokens, if_pos h]
  simp

theorem ReadsBack.tokensAt {e : Expr} (he : e.ReadsBack) (hk : k < atomStrength)
    (h : Goes k e.shape rest t r₁) : Reads k (e.tokensAt k ++ rest) t r₁ := by
  have hbounds := e.strength_bounds
  by_cases hlt : e.strength < k
  · rw [tokensAt_of_lt hlt]
    exact ((he.paren rest).down (Nat.le_refl _) hk h.stops).goes hk h
  · rw [Expr.tokensAt, wrapTokens, if_neg hlt]
    rcases Nat.eq_or_lt_of_le (Nat.not_lt.1 hlt) with rfl | hlt
    · exact he _ _ _ h
    · have hbare := he _ _ _ (.of_stops (h.inner hlt))
      exact (hbare.down hbounds.2 hlt h.stops).goes hk h

theorem ReadsBack.tokensAt_of_stops {e : Expr} (he : e.ReadsBack) (hk : k < atomStrength)
    (h : Stops (outer k) rest) : Reads k (e.tokensAt k ++ rest) e.shape rest :=
  he.tokensAt hk (.of_stops h)

theorem ReadsBack.receiver {e : Expr} (he : e.ReadsBack) (hstops : Stops atomStrength rest)
    (h : Continues postfixStrength e.shape rest t r₁) :
    Reads postfixStrength (e.tokensAt (receiverStrength e) ++ rest) t r₁ := by
  have hgoes : Goes postfixStrength e.shape rest t r₁ := ⟨hstops, h, fun h => absurd h (by decide)⟩
  unfold receiverStrength
  split
  · rw [tokensAt_of_lt (Nat.lt_succ_of_le e.strength_bounds.2)]
    exact (he.paren rest).goes (by decide) hgoes
  · exact he.tokensAt (by decide) hgoes

/-! ### Each form -/

theorem readsBack_of_groups {e : Expr} (hgroups : groups e.strength = false)
    (h : ∀ rest, Stops (outer e.strength) rest → Reads e.strength (e.bareTokens ++ rest) e.shape rest) :
    e.ReadsBack := by
  intro rest t rest' hgoes
  obtain ⟨hstops, rfl, rfl⟩ := hgoes.alone hgroups
  exact h _ hstops

theorem readsBack_of_atom {e : Expr} (hgroups : groups e.strength = false)
    (h : ∀ rest, Reads atomStrength (e.bareTokens ++ rest) e.shape rest) : e.ReadsBack :=
  readsBack_of_groups hgroups fun rest hstops =>
    (h rest).down (Nat.le_refl _) e.strength_bounds.2 (hstops.mono (outer_le _))

theorem reads_numberToken (digits : String) (rest : List Token) :
    Reads atomStrength (numberToken digits :: rest) (.numeral digits) rest := by
  unfold numberToken
  split
  · rename_i h
    rcases h with rfl | rfl
    · exact .constant rfl
    · exact .constant rfl
  · exact .numeral digits

theorem readsBack_number (n : Number.Literal) : (number n).ReadsBack := by
  have hgroups : groups (number n).strength = false := by
    rw [strength]
    cases n.isNegative <;> rfl
  by_cases hneg : n.value < 0
  · have hstrength : (number n).strength = unaryStrength := by
      simp [strength, Number.Literal.isNegative, hneg]
    refine readsBack_of_groups hgroups fun rest hstops => ?_
    rw [hstrength] at hstops ⊢
    rw [bareTokens, shape, numberTokens, numberShape, if_pos hneg, if_pos hneg]
    have hdigits := (reads_numberToken (Number.text (-n.value)) rest).down (Nat.le_refl _)
      (by decide) hstops
    exact Reads.unary .negate hdigits
  · refine readsBack_of_atom hgroups fun rest => ?_
    rw [bareTokens, shape, numberTokens, numberShape, if_neg hneg, if_neg hneg]
    exact reads_numberToken _ rest

theorem readsBack_unary (op : UnaryOp) {operand : Expr} (h : operand.ReadsBack) :
    (unary op operand).ReadsBack := by
  refine readsBack_of_groups rfl fun rest hstops => ?_
  have hstops' : Stops unaryStrength rest := hstops
  have hoperand : Reads unaryStrength (operand.tokensAt (operandStrength op operand) ++ rest)
      operand.shape rest := by
    unfold operandStrength
    split
    · have hread := h.tokensAt_of_stops (k := postfixStrength) (by decide) (hstops'.mono (by decide))
      exact hread.looser (by decide) hstops'
    · exact h.tokensAt_of_stops (by decide) hstops'
  exact .unary op hoperand

theorem readsBack_assign (name : String) {value : Expr} (h : value.ReadsBack) :
    (assign name value).ReadsBack := by
  refine readsBack_of_groups rfl fun rest hstops => ?_
  have hvalue : Reads assignStrength (value.tokensAt assignStrength ++ rest) value.shape rest :=
    h.tokensAt_of_stops (by decide) hstops
  have hequal : Stops conditionalStrength (.sign "=" :: (value.tokensAt assignStrength ++ rest)) :=
    stops_of_reach (by decide) _
  have hname := (Reads.name (identifier_not_mem_reserved name)).down (Nat.le_refl _) (by decide) hequal
  show Reads assignStrength _ _ _
  exact hname.continue (by decide) (fun h => absurd h (by decide)) (.assign hvalue)

theorem readsBack_binary (op : BinaryOp) {left right : Expr} (hleft : left.ReadsBack)
    (hright : right.ReadsBack) : (binary op left right).ReadsBack := by
  intro rest t rest' hgoes
  obtain ⟨hlow, hhigh⟩ : 2 < op.strength ∧ op.strength < 10 := op.strength_bounds
  have hmark : (Token.sign op.symbol).reach = op.strength := reach_of_op op.ofSymbol?_symbol
  have hbare : (binary op left right).bareTokens ++ rest = left.tokensAt op.leftStrength ++
      .sign op.symbol :: (right.tokensAt op.rightStrength ++ rest) := by
    simp [bareTokens, Expr.tokensAt]
  rw [hbare]
  show Reads op.strength _ _ _
  -- a power groups to the right, with no prefix on its left; all others group to the left
  by_cases hop : op = .power
  · subst hop
    obtain ⟨hstops, rfl, rfl⟩ := hgoes.alone rfl
    have hexponent : Reads 9 (right.tokensAt 9 ++ rest') right.shape rest' :=
      hright.tokensAt_of_stops (by decide) hstops
    have hpower : ∀ k, 9 < k → Stops k (.sign "**" :: (right.tokensAt 9 ++ rest')) :=
      fun _ hk => stops_of_reach hk _
    have hbase := hleft.tokensAt_of_stops (k := postfixStrength) (by decide) (hpower _ (by decide))
    have hunary := hbase.looser (k := unaryStrength) (by decide) (hpower _ (by decide))
    refine hunary.continue (by decide) (fun _ => hbase.prefix?_eq_none) ?_
    exact Continues.operator .power hexponent hgoes.more
  · have hgroups : groups op.strength = true := by
      cases op <;> first | rfl | exact absurd rfl hop
    have hleftStrength : op.leftStrength = op.strength := if_neg hop
    have hrightStrength : op.rightStrength = op.strength + 1 := if_neg hop
    rw [hleftStrength, hrightStrength]
    have hstops : Stops (op.strength + 1) rest := hgoes.stops
    have houter : outer (op.strength + 1) = op.strength + 1 :=
      outer_eq (by show op.strength + 1 ≠ 2; omega)
    have hsecond : Reads (op.strength + 1) (right.tokensAt (op.strength + 1) ++ rest) right.shape rest :=
      hright.tokensAt_of_stops (by show op.strength + 1 < 12; omega) (by rw [houter]; exact hstops)
    refine hleft.tokensAt (by show op.strength < 12; omega) ⟨stops_of_reach (by omega) _, ?_, ?_⟩
    · refine Continues.operator op ?_ hgoes.more
      rw [if_neg hop]
      exact hsecond
    · intro h
      exact absurd (hgroups.symm.trans h) (by decide)

theorem readsBack_conditional {condition thenExpr elseExpr : Expr} (hcondition : condition.ReadsBack)
    (hthen : thenExpr.ReadsBack) (helse : elseExpr.ReadsBack) :
    (conditional condition thenExpr elseExpr).ReadsBack := by
  refine readsBack_of_groups rfl fun rest hstops => ?_
  have hlast : Reads assignStrength (elseExpr.tokensAt assignStrength ++ rest) elseExpr.shape rest :=
    helse.tokensAt_of_stops (by decide) hstops
  have hcolon : Stops assignStrength (.sign ":" :: (elseExpr.tokensAt assignStrength ++ rest)) :=
    stops_of_reach (by decide) _
  have hsecond := hthen.tokensAt_of_stops (k := assignStrength) (by decide) hcolon
  have hquestion : Stops (conditionalStrength + 1) (.sign "?" :: (thenExpr.tokensAt assignStrength ++
      .sign ":" :: (elseExpr.tokensAt assignStrength ++ rest))) :=
    stops_of_reach (by decide) _
  have hfirst := hcondition.tokensAt_of_stops (k := conditionalStrength + 1) (by decide) hquestion
  have hbare : (conditional condition thenExpr elseExpr).bareTokens ++ rest =
      condition.tokensAt (conditionalStrength + 1) ++ .sign "?" :: (thenExpr.tokensAt assignStrength ++
        .sign ":" :: (elseExpr.tokensAt assignStrength ++ rest)) := by
    simp [bareTokens, Expr.tokensAt]
  rw [hbare]
  show Reads conditionalStrength _ _ _
  exact hfirst.continue (by decide) (fun h => absurd h (by decide)) (.conditional hsecond hlast)

/-! ### Arguments -/

def ArgsReadBack (es : List Expr) : Prop :=
  ∀ mark rest, mark = ")" ∨ mark = "]" →
    ReadsArgs mark (argTokens es ++ .sign mark :: rest) (shapes es) rest

def ItemsReadBack (es : List Expr) : Prop :=
  ∀ mark rest, mark = ")" ∨ mark = "]" →
    ReadsItems (argTokens es ++ .sign mark :: rest) (shapes es) (.sign mark :: rest)

theorem stops_of_close {mark : String} (h : mark = ")" ∨ mark = "]") (rest : List Token) :
    Stops assignStrength (.sign mark :: rest) := by
  rcases h with rfl | rfl <;> exact stops_of_reach (by decide) _

theorem itemsReadBack_last {e : Expr} (h : e.ReadsBack) : ItemsReadBack [e] := by
  intro mark rest hmark
  refine .last (h.tokensAt_of_stops (by decide) (stops_of_close hmark rest)) ?_
  intro u hu
  obtain rfl : Token.sign mark = u := by simpa using hu
  rcases hmark with rfl | rfl <;> decide

theorem itemsReadBack_cons {e e' : Expr} {es : List Expr} (h : e.ReadsBack)
    (hmore : ItemsReadBack (e' :: es)) : ItemsReadBack (e :: e' :: es) := by
  intro mark rest hmark
  have hcomma : Stops assignStrength (.sign "," :: (argTokens (e' :: es) ++ .sign mark :: rest)) :=
    stops_of_reach (by decide) _
  have hitem := h.tokensAt_of_stops (k := assignStrength) (by decide) hcomma
  have hargs : argTokens (e :: e' :: es) ++ .sign mark :: rest = e.tokensAt assignStrength ++
      .sign "," :: (argTokens (e' :: es) ++ .sign mark :: rest) := by
    simp [argTokens, Expr.tokensAt]
  rw [hargs]
  exact .cons hitem (hmore mark rest hmark)

theorem argsReadBack {es : List Expr} (h : es = [] ∨ ItemsReadBack es) : ArgsReadBack es := by
  intro mark rest hmark
  rcases h with rfl | h
  · exact .nil
  · exact .of_items hmark (h mark rest hmark)

theorem readsBack_list {items : List Expr} (h : ArgsReadBack items) : (list items).ReadsBack := by
  refine readsBack_of_atom rfl fun rest => ?_
  rw [bareTokens, List.cons_append, List.append_assoc]
  exact .list (h "]" rest (.inr rfl))

theorem readsBack_call {function : String} (hfunction : IsFunction function) {args : List Expr}
    (h : ArgsReadBack args) : (call function args).ReadsBack := by
  intro rest t rest' hgoes
  obtain ⟨head, hhead, names, hnames, rfl⟩ := hfunction
  have hapart : Apart [] := fun c hc => absurd hc (by simp)
  have hfunction := (functionTokens_eq hhead hnames hapart).1
  have hbare : (call (head ++ dotted names) args).bareTokens ++ rest = .word head ::
      (names.flatMap (fun name => [.sign ".", .word name]) ++
        .sign "(" :: (argTokens args ++ .sign ")" :: rest)) := by
    simp [bareTokens, hfunction]
  rw [hbare]
  show Reads postfixStrength _ _ _
  exact (Reads.call hhead (h ")" rest (.inl rfl))).goes (by decide) hgoes

theorem readsBack_method {receiver : Expr} (hreceiver : receiver.ReadsBack) (name : String)
    {args : List Expr} (h : ArgsReadBack args) : (method receiver name args).ReadsBack := by
  intro rest t rest' hgoes
  have hbare : (method receiver name args).bareTokens ++ rest =
      receiver.tokensAt (receiverStrength receiver) ++
        .sign "." :: .word name :: .sign "(" :: (argTokens args ++ .sign ")" :: rest) := by
    simp [bareTokens, Expr.tokensAt]
  rw [hbare]
  exact hreceiver.receiver (stops_of_reach (by decide) _)
    (.method (h ")" rest (.inl rfl)) hgoes.more)

theorem readsBack_member {object : Expr} (hobject : object.ReadsBack) (property : String) :
    (member object property).ReadsBack := by
  intro rest t rest' hgoes
  have hbare : (member object property).bareTokens ++ rest =
      object.tokensAt (receiverStrength object) ++ .sign "." :: .word property :: rest := by
    simp [bareTokens, Expr.tokensAt]
  have hparen : ∀ u ∈ rest.head?, u ≠ .sign "(" := by
    have hstops : Stops atomStrength rest := hgoes.stops
    rintro u hu rfl
    exact absurd (hstops _ hu) (by decide)
  rw [hbare]
  exact hobject.receiver (stops_of_reach (by decide) _) (.member hparen hgoes.more)

mutual

theorem readsBack : ∀ e : Expr, e.WellNamed → e.ReadsBack
  | .null, _ => readsBack_of_atom rfl fun _ => .constant rfl
  | .boolean true, _ => readsBack_of_atom rfl fun _ => .constant rfl
  | .boolean false, _ => readsBack_of_atom rfl fun _ => .constant rfl
  | .number n, _ => readsBack_number n
  | .text s, _ => readsBack_of_atom rfl fun _ => .text s
  | .list items, h => readsBack_list (argsReadBack (itemsReadBack items h))
  | .variable name, _ => readsBack_of_atom rfl fun _ => .name (identifier_not_mem_reserved name)
  | .assign name value, h => readsBack_assign name (readsBack value h)
  | .unary op operand, h => readsBack_unary op (readsBack operand h)
  | .binary op left right, h => readsBack_binary op (readsBack left h.1) (readsBack right h.2)
  | .conditional condition thenExpr elseExpr, h =>
    readsBack_conditional (readsBack condition h.1) (readsBack thenExpr h.2.1)
      (readsBack elseExpr h.2.2)
  | .call _ args, h => readsBack_call h.1 (argsReadBack (itemsReadBack args h.2))
  | .method receiver name args, h =>
    readsBack_method (readsBack receiver h.1) name (argsReadBack (itemsReadBack args h.2.2))
  | .member object property, h => readsBack_member (readsBack object h.1) property

theorem itemsReadBack : ∀ es : List Expr, AllWellNamed es → es = [] ∨ ItemsReadBack es
  | [], _ => .inl rfl
  | [e], h => .inr (itemsReadBack_last (readsBack e h.1))
  | e :: e' :: es, h => .inr (itemsReadBack_cons (readsBack e h.1)
      ((itemsReadBack (e' :: es) h.2).resolve_left (List.cons_ne_nil e' es)))

end

/-- An expression in a place of its own, up to a token that no phrase goes on with. -/
theorem reads_print {e : Expr} (h : e.WellNamed) (hstops : Stops assignStrength rest) :
    Reads assignStrength (e.tokensAt assignStrength ++ rest) e.shape rest :=
  (readsBack e h).tokensAt_of_stops (by decide) hstops

end Expr

end Blockwork.Target
