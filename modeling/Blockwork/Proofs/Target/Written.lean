import Blockwork.Proofs.Target.Pieces

/-! Written expressions as rows of tokens. A text lexes as its row wherever what follows cannot
belong to its last token. -/

namespace Blockwork.Target

def IsFunction (f : String) : Prop := ∃ head ∈ helpers, ∃ names : List String,
  (∀ name ∈ names, isWord name = true) ∧ f = head ++ dotted names

namespace Expr

mutual

/-- Calls are of helpers, and what stands behind a point is a word. -/
def WellNamed : Expr → Prop
  | .null | .boolean _ | .number _ | .text _ | .variable _ => True
  | .list items => AllWellNamed items
  | .assign _ value => value.WellNamed
  | .unary _ operand => operand.WellNamed
  | .binary _ left right => left.WellNamed ∧ right.WellNamed
  | .conditional condition thenExpr elseExpr =>
    condition.WellNamed ∧ thenExpr.WellNamed ∧ elseExpr.WellNamed
  | .call function args => IsFunction function ∧ AllWellNamed args
  | .method receiver name args => receiver.WellNamed ∧ isWord name = true ∧ AllWellNamed args
  | .member object property => object.WellNamed ∧ isWord property = true

def AllWellNamed : List Expr → Prop
  | [] => True
  | e :: rest => e.WellNamed ∧ AllWellNamed rest

end

def wrapTokens (e : Expr) (least : Nat) (ts : List Token) : List Token :=
  if e.strength < least then .sign "(" :: ts ++ [.sign ")"] else ts

end Expr

def functionTokens (f : String) : List Token := (tokens f.toList).getD []

namespace Expr

mutual

def bareTokens : Expr → List Token
  | .null => [.word "null"]
  | .boolean b => [.word (if b then "true" else "false")]
  | .number n => numberTokens n.value
  | .text s => [.text s]
  | .list items => .sign "[" :: (argTokens items ++ [.sign "]"])
  | .variable name => [.word (identifier name)]
  | .assign name value =>
    .word (identifier name) :: .sign "=" :: value.wrapTokens assignStrength value.bareTokens
  | .unary op operand =>
    op.token :: operand.wrapTokens (operandStrength op operand) operand.bareTokens
  | .binary op left right =>
    left.wrapTokens op.leftStrength left.bareTokens ++
      .sign op.symbol :: right.wrapTokens op.rightStrength right.bareTokens
  | .conditional condition thenExpr elseExpr =>
    condition.wrapTokens (conditionalStrength + 1) condition.bareTokens ++
      .sign "?" :: (thenExpr.wrapTokens assignStrength thenExpr.bareTokens ++
        .sign ":" :: elseExpr.wrapTokens assignStrength elseExpr.bareTokens)
  | .call function args =>
    functionTokens function ++ .sign "(" :: (argTokens args ++ [.sign ")"])
  | .method receiver name args =>
    receiver.wrapTokens (receiverStrength receiver) receiver.bareTokens ++
      .sign "." :: .word name :: .sign "(" :: (argTokens args ++ [.sign ")"])
  | .member object property =>
    object.wrapTokens (receiverStrength object) object.bareTokens ++
      [.sign ".", .word property]

def argTokens : List Expr → List Token
  | [] => []
  | [arg] => arg.wrapTokens assignStrength arg.bareTokens
  | arg :: rest => arg.wrapTokens assignStrength arg.bareTokens ++ .sign "," :: argTokens rest

end

def tokensAt (least : Nat) (e : Expr) : List Token := e.wrapTokens least e.bareTokens

theorem wrap_zero (e : Expr) (s : String) : e.wrap 0 s = s := if_neg (Nat.not_lt_zero _)

theorem printAt_eq (least : Nat) (e : Expr) : e.printAt least = e.wrap least (e.printAt 0) := by
  cases e <;> rw [printAt, printAt, wrap_zero]

end Expr

/-! ### Names of functions -/

theorem dotted_cons (name : String) (names : List String) :
    (dotted (name :: names)).toList = ".".toList ++ (name.toList ++ (dotted names).toList) := by
  simp [dotted, String.join_cons]

theorem apart_dotted (names : List String) {rest : List Char} (h : Apart rest) :
    Apart ((dotted names).toList ++ rest) := by
  cases names with
  | nil => exact h
  | cons name names =>
    intro c hc
    rw [dotted_cons] at hc
    obtain rfl : '.' = c := by simpa using hc
    rfl

theorem Starts.lexes_point {s : String} (h : Starts false s) (hpoint : isWord s = true)
    {rest : List Char} : Lexes ".".toList [.sign "."] (s.toList ++ rest) := by
  obtain ⟨c, cs, hs, -⟩ := h
  rw [hs, List.cons_append]
  refine .point ?_
  rintro rfl
  rw [isWord, hs] at hpoint
  exact absurd hpoint (by simp [isWordStart])

theorem Lexes.name {s : String} (h : isWord s = true) {rest : List Char} (hrest : Apart rest) :
    Lexes (".".toList ++ s.toList) [.sign ".", .word s] rest :=
  ((Starts.of_isWord h false).lexes_point h).append (.word h hrest)

theorem lexes_dotted {names : List String} (h : ∀ name ∈ names, isWord name = true)
    {rest : List Char} (hrest : Apart rest) :
    Lexes (dotted names).toList (names.flatMap fun name => [.sign ".", .word name]) rest := by
  induction names with
  | nil => exact .nil
  | cons name names ih =>
    have hname := h name (by simp)
    have hnames := ih fun n hn => h n (List.mem_cons_of_mem _ hn)
    rw [dotted_cons, ← List.append_assoc]
    exact (Lexes.name hname (apart_dotted names hrest)).append hnames

theorem functionTokens_eq {head : String} (hhead : head ∈ helpers) {names : List String}
    (h : ∀ name ∈ names, isWord name = true) {rest : List Char} (hrest : Apart rest) :
    functionTokens (head ++ dotted names) =
        .word head :: names.flatMap (fun name => [.sign ".", .word name]) ∧
      Lexes (head ++ dotted names).toList (functionTokens (head ++ dotted names)) rest := by
  have hwords : ∀ head ∈ helpers, isWord head = true := by decide
  have key : ∀ rest, Apart rest → Lexes (head ++ dotted names).toList
      (.word head :: names.flatMap fun name => [.sign ".", .word name]) rest := by
    intro rest hrest
    rw [String.toList_append]
    exact (Lexes.word (hwords head hhead) (apart_dotted names hrest)).append (lexes_dotted h hrest)
  have hempty : tokens (head ++ dotted names).toList =
      some (.word head :: names.flatMap fun name => [.sign ".", .word name]) := by
    have := key [] fun c hc => absurd hc (by simp)
    rw [Lexes, List.append_nil, tokens] at this
    simpa using this
  have htokens : functionTokens (head ++ dotted names) =
      .word head :: names.flatMap fun name => [.sign ".", .word name] := by
    rw [functionTokens, hempty, Option.getD_some]
  exact ⟨htokens, htokens ▸ key rest hrest⟩

/-! ### Expressions -/

namespace Expr

def Follows (e : Expr) (least : Nat) (rest : List Char) : Prop :=
  Clear rest ∨ Apart rest ∧ receiverStrength e ≤ least

theorem Follows.apart {e : Expr} {least : Nat} {rest : List Char} (h : e.Follows least rest) :
    Apart rest := by
  rcases h with h | h
  · exact h.apart
  · exact h.1

theorem Follows.clear {e : Expr} {strength : Nat} {rest : List Char}
    (h : e.Follows e.strength rest) (hstrength : e.strength = strength)
    (he : strength < receiverStrength e) : Clear rest := by
  rcases h with h | h
  · exact h
  · exact absurd (hstrength ▸ h.2) (Nat.not_le.2 he)

theorem clear_of_mark {s : Char} (h : isWordPart s = false ∧ s ≠ '.') (rest : List Char) :
    Clear (s :: rest) := by
  intro c hc
  obtain rfl : s = c := by simpa using hc
  exact h

theorem clear_of_space (cs : List Char) : Clear (' ' :: cs) := clear_of_mark (by decide) cs

theorem clear_of_comma (cs : List Char) : Clear (',' :: cs) := clear_of_mark (by decide) cs

theorem clear_of_paren (cs : List Char) : Clear ('(' :: cs) := clear_of_mark (by decide) cs

theorem clear_of_close (cs : List Char) : Clear (')' :: cs) := clear_of_mark (by decide) cs

theorem clear_of_semicolon (cs : List Char) : Clear (';' :: cs) := clear_of_mark (by decide) cs

theorem apart_of_point (cs : List Char) : Apart (".".toList ++ cs) := by
  intro c hc
  obtain rfl : '.' = c := by simpa using hc
  rfl

theorem lexes_wrap {e : Expr} (least : Nat) {rest : List Char}
    (hbare : ∀ rest, e.Follows e.strength rest → Lexes (e.printAt 0).toList e.bareTokens rest)
    (h : e.Follows least rest) : Lexes (e.printAt least).toList (e.tokensAt least) rest := by
  rw [printAt_eq, wrap, tokensAt, wrapTokens]
  split
  · have hinner := hbare (")".toList ++ rest) (.inl (clear_of_mark (by decide) _))
    rw [String.toList_append, String.toList_append, List.append_assoc]
    exact (Lexes.mark (by decide)).append (hinner.append (.mark (by decide)))
  · refine hbare rest ?_
    rcases h with h | h
    · exact .inl h
    · exact .inr ⟨h.1, Nat.le_trans h.2 (by omega)⟩

theorem starts_wrap {e : Expr} (least : Nat)
    (hbare : least ≤ e.strength → Starts (e.startsWithMinus && least ≤ unaryStrength) (e.printAt 0)) :
    Starts (e.startsWithMinus && least ≤ unaryStrength) (e.printAt least) := by
  rw [printAt_eq, wrap]
  split
  · exact .of_char (c := '(') (by simp; rfl) (by decide) _
  · exact hbare (by omega)

theorem unaryStrength_le_receiverStrength (e : Expr) : unaryStrength ≤ receiverStrength e := by
  unfold receiverStrength
  split <;> decide

theorem starts_receiver {e : Expr} (h : Starts
    (e.startsWithMinus && receiverStrength e ≤ unaryStrength) (e.printAt (receiverStrength e)))
    (minus : Bool) (s : String) : Starts minus (e.printAt (receiverStrength e) ++ s) := by
  have hstrength : ¬ receiverStrength e ≤ unaryStrength := by
    unfold receiverStrength
    split <;> decide
  rw [decide_eq_false hstrength, Bool.and_false] at h
  obtain ⟨c, cs, hc, hequal, hminus⟩ := h.append s
  exact ⟨c, cs, hc, hequal, fun h => absurd (hminus h) (by decide)⟩

theorem starts_number (n : Number.Literal) (least : Nat) (h : least ≤ (number n).strength) :
    Starts ((number n).startsWithMinus && least ≤ unaryStrength) ((number n).printAt 0) := by
  have hprint : (number n).printAt 0 = Number.text n.value := by simp [printAt, wrap]
  rw [hprint]
  by_cases hneg : n.value < 0
  · have hminus : n.isNegative = true := by simp [Number.Literal.isNegative, hneg]
    have hleast : least ≤ unaryStrength := by simpa [strength, hminus] using h
    refine ⟨'-', (Number.text (-n.value)).toList, ?_, by decide, fun _ => ?_⟩
    · rw [Number.text_of_neg hneg, String.toList_append]
      rfl
    · rw [startsWithMinus, hminus, decide_eq_true hleast, Bool.and_true]
  · exact starts_text_of_not_neg hneg _

theorem starts_unary (op : UnaryOp) (operand : Expr) (least : Nat)
    (h : least ≤ (unary op operand).strength) :
    Starts ((unary op operand).startsWithMinus && least ≤ unaryStrength)
      ((unary op operand).printAt 0) := by
  rw [printAt, wrap_zero]
  cases op with
  | negate =>
    have hleast : decide (least ≤ unaryStrength) = true := decide_eq_true h
    exact .append ⟨'-', [], rfl, by decide, fun _ => hleast⟩ _
  | not =>
    have hsymbol : UnaryOp.not.symbol.toList = '!' :: [] := rfl
    exact .append (.of_char hsymbol (by decide) _) _
  | typeOf =>
    have hsymbol : UnaryOp.typeOf.symbol.toList = 't' :: "ypeof ".toList := rfl
    exact .append (.of_wordPart hsymbol (by decide) _) _

theorem starts_printAt : ∀ (e : Expr), e.WellNamed → ∀ least, unaryStrength ≤ least →
    Starts (e.startsWithMinus && least ≤ unaryStrength) (e.printAt least)
  | .null, _, least, _ => starts_wrap least fun _ => .of_isWord (s := "null") (by decide) _
  | .boolean true, _, least, _ => starts_wrap least fun _ => .of_isWord (s := "true") (by decide) _
  | .boolean false, _, least, _ =>
    starts_wrap least fun _ => .of_isWord (s := "false") (by decide) _
  | .number n, _, least, _ => starts_wrap least (starts_number n least)
  | .text s, _, least, _ => starts_wrap least fun _ => by
    rw [printAt, wrap_zero, Text.Quoting.quote]
    exact .of_char String.toList_ofList (by decide) _
  | .list items, _, least, _ => starts_wrap least fun _ => by
    rw [printAt, wrap_zero, String.append_assoc]
    exact .append (.of_char (String.toList_ofList (l := ['['])) (by decide) _) _
  | .variable name, _, least, _ => starts_wrap least fun _ => by
    rw [printAt, wrap_zero]
    exact .of_isWord (isWord_identifier name) _
  | .assign _ _, _, least, hleast => starts_wrap least fun hstrength =>
    absurd (show 10 ≤ 1 from Nat.le_trans hleast hstrength) (by decide)
  | .unary op operand, _, least, _ => starts_wrap least (starts_unary op operand least)
  | .binary op _ _, _, least, hleast => starts_wrap least fun hstrength => by
    have hop : ¬ unaryStrength ≤ op.strength := by cases op <;> decide
    exact absurd (Nat.le_trans hleast hstrength) hop
  | .conditional _ _ _, _, least, hleast => starts_wrap least fun hstrength =>
    absurd (show 10 ≤ 2 from Nat.le_trans hleast hstrength) (by decide)
  | .call function args, h, least, _ => starts_wrap least fun _ => by
    obtain ⟨head, hhead, names, -, rfl⟩ := h.1
    have hwords : ∀ head ∈ helpers, isWord head = true := by decide
    rw [printAt, wrap_zero, String.append_assoc, String.append_assoc, String.append_assoc]
    exact (Starts.of_isWord (hwords head hhead) _).append _
  | .method receiver name args, h, least, _ => starts_wrap least fun _ => by
    have hreceiver := starts_printAt receiver h.1 (receiverStrength receiver)
      (unaryStrength_le_receiverStrength receiver)
    rw [printAt, wrap_zero, String.append_assoc, String.append_assoc, String.append_assoc,
      String.append_assoc]
    exact starts_receiver hreceiver _ _
  | .member object property, h, least, _ => starts_wrap least fun _ => by
    have hobject := starts_printAt object h.1 (receiverStrength object)
      (unaryStrength_le_receiverStrength object)
    rw [printAt, wrap_zero, String.append_assoc]
    exact starts_receiver hobject _ _

/-! ### The tokens of an expression -/

theorem lexes_unary {op : UnaryOp} {operand : Expr} (hnamed : operand.WellNamed)
    {rest : List Char} (h : Lexes (operand.printAt (operandStrength op operand)).toList
      (operand.tokensAt (operandStrength op operand)) rest) :
    Lexes ((unary op operand).printAt 0).toList (unary op operand).bareTokens rest := by
  have hleast : unaryStrength ≤ operandStrength op operand := by
    unfold operandStrength
    split <;> decide
  obtain ⟨c, cs, hc, hequal, hminus⟩ := starts_printAt operand hnamed _ hleast
  have hhead : ∀ d ∈ ((operand.printAt (operandStrength op operand)).toList ++ rest).head?,
      d = c := by
    intro d hd
    rw [hc] at hd
    simpa using hd.symm
  rw [printAt, wrap_zero, String.toList_append]
  cases op with
  | negate =>
    have hsign : Lexes "-".toList [.sign "-"]
        ((operand.printAt (operandStrength .negate operand)).toList ++ rest) := by
      refine .sign (by decide) fun d hd => ?_
      rw [hhead d hd]
      refine goesOn_minus (fun hc => ?_) hequal
      -- an operand that begins with a minus sign is asked for more strength than it has
      have hboth := Bool.and_eq_true_iff.1 (hminus hc)
      have hstrength : operandStrength .negate operand = unaryStrength + 1 := by
        rw [operandStrength, hboth.1]
        rfl
      rw [hstrength] at hboth
      exact absurd hboth.2 (by decide)
    exact hsign.append h
  | not =>
    have hsign : Lexes "!".toList [.sign "!"]
        ((operand.printAt (operandStrength .not operand)).toList ++ rest) := by
      refine .sign (by decide) fun d hd => ?_
      rw [hhead d hd]
      exact goesOn_not hequal
    exact hsign.append h
  | typeOf =>
    have hsymbol : UnaryOp.typeOf.symbol.toList = "typeof".toList ++ [' '] := rfl
    rw [hsymbol, List.append_assoc]
    have happart : Apart (' ' :: ((operand.printAt (operandStrength .typeOf operand)).toList ++ rest)) :=
      (clear_of_space _).apart
    exact Lexes.append (.word (by decide) happart) (Lexes.append (.space rfl) h)

theorem lexes_call {args : List Expr} (h : ∀ rest, Clear rest →
    Lexes (printArgs args).toList (argTokens args) rest) (rest : List Char) :
    Lexes ("(".toList ++ ((printArgs args).toList ++ ")".toList))
      (.sign "(" :: (argTokens args ++ [.sign ")"])) rest :=
  (Lexes.mark (by decide)).append ((h _ (clear_of_mark (by decide) _)).append (.mark (by decide)))

theorem BinaryOp.symbol_mem_signs (op : BinaryOp) :
    op.symbol ∈ signs ∧ goesOn op.symbol ' ' = false := by
  cases op <;> decide

mutual

theorem lexes_bare : ∀ (e : Expr), e.WellNamed → ∀ rest, e.Follows e.strength rest →
    Lexes (e.printAt 0).toList e.bareTokens rest
  | .null, _, rest, h => .word (s := "null") (by decide) h.apart
  | .boolean true, _, rest, h => .word (s := "true") (by decide) h.apart
  | .boolean false, _, rest, h => .word (s := "false") (by decide) h.apart
  | .number n, _, rest, h => by
    -- a point behind a number would belong to it, but a number is no receiver without parentheses
    have hstrength : (number n).strength < receiverStrength (number n) := by
      show (if n.isNegative then unaryStrength else atomStrength) < atomStrength + 1
      split <;> decide
    rw [printAt, wrap_zero]
    exact .number n.value (h.clear rfl hstrength)
  | .text s, _, rest, _ => by
    rw [printAt, wrap_zero]
    exact .text s
  | .list items, hnamed, rest, _ => by
    have hitems := lexes_args items hnamed ("]".toList ++ rest) (clear_of_mark (by decide) _)
    rw [printAt, wrap_zero, String.append_assoc, String.toList_append, String.toList_append]
    exact (Lexes.mark (by decide)).append (hitems.append (.mark (by decide)))
  | .variable name, _, rest, h => by
    rw [printAt, wrap_zero]
    exact .word (isWord_identifier name) h.apart
  | .assign name value, hnamed, rest, h => by
    have hclear : Clear rest := h.clear rfl (show assignStrength < postfixStrength by decide)
    have hvalue := lexes_wrap assignStrength (lexes_bare value hnamed) (.inl hclear)
    have hname := fun bs => Lexes.word (isWord_identifier name) (clear_of_space bs).apart
    have hprint : ((assign name value).printAt 0).toList = (identifier name).toList ++
        ' ' :: ("=".toList ++ ' ' :: (value.printAt assignStrength).toList) := by
      simp [printAt, wrap_zero]
    rw [hprint]
    exact (hname _).append (.spaced (s := "=") (by decide) (by decide) hvalue)
  | .unary op operand, hnamed, rest, h => by
    have hclear : Clear rest := h.clear rfl (show unaryStrength < postfixStrength by decide)
    have hoperand : operand.WellNamed := hnamed
    exact lexes_unary hoperand (lexes_wrap _ (lexes_bare operand hoperand) (.inl hclear))
  | .binary op left right, hnamed, rest, h => by
    have hstrength : op.strength < postfixStrength := by cases op <;> decide
    have hleft := fun bs => lexes_wrap op.leftStrength (lexes_bare left hnamed.1)
      (.inl (clear_of_space bs))
    have hright := lexes_wrap op.rightStrength (lexes_bare right hnamed.2)
      (.inl (h.clear rfl hstrength))
    obtain ⟨hsign, hspace⟩ := BinaryOp.symbol_mem_signs op
    have hprint : ((binary op left right).printAt 0).toList =
        (left.printAt op.leftStrength).toList ++
          ' ' :: (op.symbol.toList ++ ' ' :: (right.printAt op.rightStrength).toList) := by
      simp [printAt, wrap_zero]
    rw [hprint]
    exact (hleft _).append (.spaced hsign hspace hright)
  | .conditional condition thenExpr elseExpr, hnamed, rest, h => by
    obtain ⟨hcondition, hthen, helse⟩ := hnamed
    have hfirst := fun bs => lexes_wrap (conditionalStrength + 1)
      (lexes_bare condition hcondition) (.inl (clear_of_space bs))
    have hsecond := fun bs => lexes_wrap assignStrength (lexes_bare thenExpr hthen)
      (.inl (clear_of_space bs))
    have hthird := lexes_wrap assignStrength (lexes_bare elseExpr helse)
      (.inl (h.clear rfl (show conditionalStrength < postfixStrength by decide)))
    have hprint : ((conditional condition thenExpr elseExpr).printAt 0).toList =
        (condition.printAt (conditionalStrength + 1)).toList ++
          ' ' :: ("?".toList ++ ' ' :: ((thenExpr.printAt assignStrength).toList ++
            ' ' :: (":".toList ++ ' ' :: (elseExpr.printAt assignStrength).toList))) := by
      simp [printAt, wrap_zero]
    rw [hprint]
    refine (hfirst _).append (.spaced (s := "?") (by decide) (by decide) ?_)
    exact (hsecond _).append (.spaced (s := ":") (by decide) (by decide) hthird)
  | .call function args, hnamed, rest, h => by
    obtain ⟨⟨head, hhead, names, hnames, rfl⟩, hargs⟩ := hnamed
    have hfunction := fun bs =>
      (functionTokens_eq hhead hnames (clear_of_paren bs).apart).2
    have hprint : ((call (head ++ dotted names) args).printAt 0).toList =
        (head ++ dotted names).toList ++ ("(".toList ++ ((printArgs args).toList ++ ")".toList)) := by
      simp [printAt, wrap_zero]
    rw [hprint]
    exact (hfunction _).append (lexes_call (lexes_args args hargs) rest)
  | .method receiver name args, hnamed, rest, h => by
    obtain ⟨hreceiver, hname, hargs⟩ := hnamed
    have hpoint : receiver.Follows (receiverStrength receiver) (".".toList ++ name.toList ++
        ("(".toList ++ ((printArgs args).toList ++ ")".toList)) ++ rest) :=
      .inr ⟨apart_of_point _, Nat.le_refl _⟩
    have hfirst := lexes_wrap _ (lexes_bare receiver hreceiver) hpoint
    have hsecond := fun bs => Lexes.name hname (clear_of_paren bs).apart
    have hprint : ((method receiver name args).printAt 0).toList =
        (receiver.printAt (receiverStrength receiver)).toList ++
          (".".toList ++ name.toList ++ ("(".toList ++ ((printArgs args).toList ++ ")".toList))) := by
      simp [printAt, wrap_zero]
    rw [hprint]
    exact hfirst.append ((hsecond _).append (lexes_call (lexes_args args hargs) rest))
  | .member object property, hnamed, rest, h => by
    have hpoint : object.Follows (receiverStrength object) (".".toList ++ property.toList ++ rest) :=
      .inr ⟨apart_of_point _, Nat.le_refl _⟩
    have hobject := lexes_wrap _ (lexes_bare object hnamed.1) hpoint
    rw [printAt, wrap_zero, String.append_assoc, String.toList_append, String.toList_append]
    exact hobject.append (Lexes.name hnamed.2 h.apart)

theorem lexes_args : ∀ (es : List Expr), AllWellNamed es → ∀ rest, Clear rest →
    Lexes (printArgs es).toList (argTokens es) rest
  | [], _, rest, _ => .nil
  | [arg], hnamed, rest, h => lexes_wrap _ (lexes_bare arg hnamed.1) (.inl h)
  | arg :: arg' :: args, hnamed, rest, h => by
    have harg := fun bs => lexes_wrap assignStrength (lexes_bare arg hnamed.1)
      (.inl (clear_of_comma bs))
    have hargs := lexes_args (arg' :: args) hnamed.2 rest h
    have hprint : (printArgs (arg :: arg' :: args)).toList = (arg.printAt assignStrength).toList ++
        (",".toList ++ ([' '] ++ (printArgs (arg' :: args)).toList)) := by
      simp [printArgs]
    rw [hprint]
    exact (harg _).append ((Lexes.mark (by decide)).append (Lexes.append (.space rfl) hargs))

end

end Expr

end Blockwork.Target
