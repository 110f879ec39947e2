import Blockwork.Proofs.Compiler.Values
import Blockwork.Proofs.Number.Numerals
import Blockwork.Proofs.Target.NumberTexts
import Blockwork.Target.Print

/-! Number literals read back. The written form of a number is its display text, and a numeric
literal of the target denotes a number, so the two can be held against each other. -/

namespace Blockwork.Target

open Number

/-- Digits in front of a point, and digits behind it or neither. A zero in front of the point stands
alone. They denote the nearest double. -/
def readDecimal? (cs : List Char) : Option Float :=
  match splitPoint cs with
  | (whole, fraction, []) =>
    if whole.isEmpty || whole.head? = some '0' && 1 < whole.length then none
    else some (nearest (ofDigits (whole ++ fraction)) (-(fraction.length : ℤ)))
  | _ => none

/-- The number that a numeric literal denotes. A minus sign in front of one negates it. -/
def readLiteral? : List Char → Option Float
  | '-' :: cs => (readLiteral? cs).map (-·)
  | cs =>
    if cs = "NaN".toList then some (0.0 / 0.0)
    else if cs = "Infinity".toList then some (1.0 / 0.0)
    else readDecimal? cs

section Reading

variable {n : Numeral} (h : n.IsPlain)
include h

theorem readDecimal?_chars : readDecimal? n.chars = some n.double := by
  have hwhole : n.whole.isEmpty = false := by
    rw [Bool.eq_false_iff, Ne, List.isEmpty_iff]
    exact h.whole_ne
  have halone : ¬ (n.whole.head? = some '0' ∧ 1 < n.whole.length) :=
    fun ⟨hzero, hlength⟩ => absurd (h.alone hzero) hlength.ne'
  simp only [readDecimal?, h.splitPoint_eq, hwhole, Bool.false_or, ← Bool.decide_and, decide_eq_true_eq,
    if_neg halone]
  rfl

theorem readLiteral?_chars : readLiteral? n.chars = some n.double := by
  obtain ⟨c, cs, hchars, hc⟩ := h.chars_cons
  have hne : ∀ word : List Char, word.head?.any Char.isDigit = false → n.chars ≠ word := by
    rintro _ hword rfl
    rw [hchars] at hword
    simp [hc] at hword
  rw [readLiteral?, if_neg (hne _ rfl), if_neg (hne _ rfl), readDecimal?_chars h]
  exact fun rest hrest => hne ('-' :: rest) rfl hrest

end Reading

theorem readLiteral?_text_of_none {x : Float} (hx : Binary.ofFloat? x = none) :
    readLiteral? (Number.text x).toList = some x := by
  have hnan := isNaN_iff x
  have hneg := lt_zero_iff x
  unfold Number.text Layout.render
  rw [hx]
  rcases value?_eq_none (x := x) (by rw [value?, hx]; rfl) with hunpack | ⟨s, hunpack⟩
  · rw [if_pos (hnan.2 hunpack)]
    exact congrArg some (eq_of_unpack (by rw [hunpack]; rfl))
  · rw [hunpack] at hnan hneg
    rw [if_neg (fun h => by cases hnan.1 h)]
    cases s with
    | negative =>
      rw [if_pos (hneg.2 (.inl rfl))]
      exact congrArg some (eq_of_unpack (by rw [hunpack]; rfl))
    | positive =>
      rw [if_neg (fun h => by simpa using hneg.1 h)]
      exact congrArg some (eq_of_unpack (by rw [hunpack]; rfl))

/-- The display text of a number is a literal of it, but that of a zero has no sign. -/
theorem readLiteral?_text (x : Float) :
    readLiteral? (Number.text x).toList = some (if x == 0 then 0 else x) := by
  have hzero : value? 0 = some 0 := value?_of_zero (s := .positive) rfl
  have hbeq := beq_iff_value? (x := x) hzero
  cases hx : Binary.ofFloat? x with
  | none =>
    have hne : (x == 0) ≠ true := by rw [Ne, hbeq, value?, hx]; simp
    rw [if_neg hne, readLiteral?_text_of_none hx]
  | some b =>
    have hvalue : value? x = some b.signed := by rw [value?, hx]; rfl
    obtain ⟨n, hchars, hplain, -, hdouble⟩ := display.exists_numeral rfl hx
    unfold Number.text Layout.render
    rw [hx]
    by_cases hsignificand : b.significand = 0
    · rw [if_pos (hbeq.2 (by rw [hvalue, Binary.signed_eq_zero hsignificand]))]
      simp [hsignificand, display, Layout.magnitude]
      rfl
    · have hsigned := Binary.signed_ne_zero (Nat.pos_of_ne_zero hsignificand)
      have hne : (x == 0) ≠ true := by rw [Ne, hbeq, hvalue]; simpa using hsigned
      have hread := readLiteral?_chars hplain
      have hsign : (b.negative && (display.zeroSign || b.significand != 0)) = b.negative := by
        simp [hsignificand]
      rw [if_neg hne, ← hdouble]
      dsimp only
      rw [hsign, String.toList_append, hchars]
      cases b.negative with
      | false => exact hread
      | true => exact congrArg (Option.map (-·)) hread

theorem print_number (n : Literal) : (Expr.number n).print = Number.text n.value := by
  have hstrength : ¬ (Expr.number n).strength < assignStrength := by
    show ¬ (if n.isNegative then unaryStrength else atomStrength) < assignStrength
    cases n.isNegative <;> decide
  exact if_neg hstrength

theorem unpack_zero_of_beq {x : Float} (h : (x == 0) = true) : ∃ s, x.toModel.unpack = .zero s := by
  have hzero : value? 0 = some 0 := value?_of_zero (s := .positive) rfl
  rcases cases_of_value? ((beq_iff_value? hzero).1 h) with ⟨-, hs⟩ | ⟨s, m, e, hm, -, -, hsigned⟩
  · exact hs
  · exact absurd hsigned.symm (Binary.signed_ne_zero hm)

theorem ite_zero_eq_iff (x : Float) : (if x == 0 then 0 else x) = x ↔ x ≠ -0 := by
  have hnegative : (-0 : Float).toModel.unpack = .zero .negative := rfl
  by_cases hx : x == 0
  · rw [if_pos hx]
    obtain ⟨s, hs⟩ := unpack_zero_of_beq hx
    cases s with
    | positive =>
      have hzero : (0 : Float) = x := eq_of_unpack (by rw [hs]; rfl)
      refine iff_of_true hzero fun h => ?_
      rw [h, hnegative] at hs
      cases hs
    | negative =>
      have hnegzero : x = -0 := eq_of_unpack (by rw [hs, hnegative])
      refine iff_of_false (fun h => ?_) fun h => h hnegzero
      rw [← h] at hs
      cases hs
  · rw [if_neg hx]
    exact iff_of_true rfl fun h => hx (by rw [h]; rfl)

theorem number_code {b : Block Kind} {limit : ℕ} {c c' : Context Blockwork.Value}
    {κ κ' : Context Expr} {v : Blockwork.Value} {code : Code} (hkind : b.kind = .number)
    (hrun : outcome (b.evaluate limit) c = (.ok v, c'))
    (hcode : outcome b.compile κ = (.ok code, κ')) :
    ∃ n : Literal, v = .number n.value ∧ code = .expression (.number n) := by
  rw [b.evaluate_eq, hkind] at hrun
  rw [b.compile_eq, hkind] at hcode
  obtain ⟨text, -, hrun, hcode⟩ := setting_eq_ok hrun hcode
  obtain ⟨n, -, hrun, hcode⟩ := setting_eq_ok hrun hcode
  obtain ⟨rfl, -⟩ := pure_eq_ok.1 hrun
  obtain ⟨rfl, -⟩ := pure_eq_ok.1 hcode
  exact ⟨n, rfl, rfl⟩

/-- The written form of a number is a literal that denotes it, bit for bit, unless it is a negative
zero, whose written form denotes the other zero. A number block has the number of its run in its
code. -/
theorem number_literals_denote {b : Block Kind} {limit : ℕ} {c c' : Context Blockwork.Value}
    {κ κ' : Context Expr} {v : Blockwork.Value} {code : Code} (hkind : b.kind = .number)
    (hrun : outcome (b.evaluate limit) c = (.ok v, c'))
    (hcode : outcome b.compile κ = (.ok code, κ')) :
    (∃ n : Literal, v = .number n.value ∧ code = .expression (.number n)) ∧
      ∀ n : Literal,
        readLiteral? (Expr.number n).print.toList = some (if n.value == 0 then 0 else n.value) ∧
        (readLiteral? (Expr.number n).print.toList = some n.value ↔ n.value ≠ -0) := by
  refine ⟨number_code hkind hrun hcode, fun n => ?_⟩
  rw [print_number, readLiteral?_text]
  exact ⟨rfl, Option.some_inj.trans (ite_zero_eq_iff n.value)⟩

def numberBlock (text id : String) : Block Kind :=
  ⟨.number, "math_number", id, [("NUM", text)], [], [], [], []⟩

section

variable {text : String} {n : Literal} (hread : readNumber text = .ok n) (id : String)
include hread

theorem evaluate_numberBlock (limit : ℕ) (c : Context Blockwork.Value) :
    outcome ((numberBlock text id).evaluate limit) c = (.ok (.number n.value), c) := by
  have hfield : ((numberBlock text id).runParts limit).field "NUM" = .ok text :=
    Parts.field_eq_ok.2 rfl
  rw [Block.evaluate_eq]
  show outcome (Kind.evaluate limit _ .number) c = _
  exact bind_eq_ok.2 ⟨text, c, Run.lift_eq_ok.2 ⟨hfield, rfl⟩,
    bind_eq_ok.2 ⟨n, c, Run.lift_eq_ok.2 ⟨hread, rfl⟩, pure_eq_ok.2 ⟨rfl, rfl⟩⟩⟩

theorem compile_numberBlock (κ : Context Expr) :
    outcome (numberBlock text id).compile κ = (.ok (.expression (.number n)), κ) := by
  have hfield : (numberBlock text id).codeParts.field "NUM" = .ok text := Parts.field_eq_ok.2 rfl
  rw [Block.compile_eq]
  show outcome (Kind.compile _ .number) κ = _
  exact bind_eq_ok.2 ⟨text, κ, Compilation.lift_eq_ok.2 ⟨hfield, rfl⟩,
    bind_eq_ok.2 ⟨n, κ, Compilation.lift_eq_ok.2 ⟨hread, rfl⟩, pure_eq_ok.2 ⟨rfl, rfl⟩⟩⟩

end

theorem number_literals_denote_seven : ∃ v code,
    outcome ((numberBlock "7" "n").evaluate 1) {} = (.ok v, {}) ∧
    outcome (numberBlock "7" "n").compile {} = (.ok code, {}) ∧
    (∃ n : Literal, v = .number n.value ∧ code = .expression (.number n)) ∧
      ∀ n : Literal,
        readLiteral? (Expr.number n).print.toList = some (if n.value == 0 then 0 else n.value) ∧
        (readLiteral? (Expr.number n).print.toList = some n.value ↔ n.value ≠ -0) := by
  obtain ⟨n, hread⟩ : ∃ n, readNumber "7" = .ok n := ⟨_, rfl⟩
  have hrun := evaluate_numberBlock hread "n" 1 {}
  have hcode := compile_numberBlock hread "n" {}
  exact ⟨_, _, hrun, hcode, number_literals_denote rfl hrun hcode⟩

/-- A run divides by the negative zero, and the program by the other one. -/
theorem negative_zero_loses_sign : ∃ n : Literal,
    outcome ((numberBlock "-0" "n").evaluate 1) {} = (.ok (.number n.value), {}) ∧
    outcome (numberBlock "-0" "n").compile {} = (.ok (.expression (.number n)), {}) ∧
    (Expr.number n).print = "0" ∧ readLiteral? (Expr.number n).print.toList = some 0 ∧
    n.value ≠ 0 ∧ 1 / n.value < 0 ∧ ¬ (1 / 0 : Float) < 0 := by
  have hread : readNumber "-0" = .ok ⟨-0, false⟩ := rfl
  have hne : (-0 : Float) ≠ 0 := fun h => by
    have hunpack : (-0 : Float).toModel.unpack = (0 : Float).toModel.unpack := by rw [h]
    cases hunpack
  exact ⟨⟨-0, false⟩, evaluate_numberBlock hread "n" 1 {}, compile_numberBlock hread "n" {}, rfl, rfl,
    hne, by decide +kernel, by decide +kernel⟩

end Blockwork.Target
