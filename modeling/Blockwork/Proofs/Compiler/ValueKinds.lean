import Blockwork.Proofs.Compiler.Values
import Blockwork.Proofs.Number.Count

/-! The kinds that compute a value: each one compiles to an expression of the value that it evaluates
to. -/

namespace Blockwork

open Target

variable {names : List String} {c : Context Value} {limit : Nat} {b : Block Kind}

namespace Text

theorem unitCount_eq_zero {cs : List Char} : unitCount cs = 0 ↔ cs = [] := by
  cases cs with
  | nil => simp [unitCount]
  | cons d rest =>
    have hunits : 0 < unitsOfChar d := by
      unfold unitsOfChar
      split <;> decide
    have hcount : unitCount (d :: rest) ≠ 0 := by
      rw [unitCount]
      omega
    simp [hcount]

theorem isEmpty_eq (t : String) : t.isEmpty = decide (unitCount t.toList = 0) := by
  rw [Bool.eq_iff_iff, decide_eq_true_iff, unitCount_eq_zero, String.isEmpty_iff,
    String.toList_eq_nil_iff]

end Text

namespace Denotes

variable {s : Scopes Value} {e divisor : Expr} {x y : Float}

theorem num (x : Float) : Denotes names s (.num x) (.number x) := fun _ _ => rfl

theorem modulo (h : Denotes names s e (.number x)) (hdivisor : Denotes names s divisor (.number y)) :
    Denotes names s (.binary .modulo e divisor) (.number (Number.remainder x y)) :=
  h.binary hdivisor rfl

theorem remainderIs (h : Denotes names s e (.number x))
    (hdivisor : Denotes names s divisor (.number y)) (r : Float) :
    Denotes names s (remainderIs e divisor r) (.boolean (Number.remainder x y == r)) :=
  (h.modulo hdivisor).binary (num r) rfl

theorem hasNoLength {w : Target.Value} {n : Nat} (h : Denotes names s e w)
    (hlength : member? "length" w = some (.number (Float.ofNat n))) :
    Denotes names s (hasNoLength e) (.boolean (decide (n = 0))) := by
  have hzero := (h.member hlength).binary (num 0) (rfl : BinaryOp.equal.decides _ = false)
  rw [← Number.ofNat_beq_zero]
  exact hzero

end Denotes

section

variable (hslots : ∀ s ∈ b.values,
  Mirrors c (Computes names c) (evaluateChain limit s.chain) (compileExpression s.chain))

include hslots

/-! ### Logic -/

theorem mirrors_compare :
    Mirrors c (Code.Denotes names c.scopes) (Kind.compare.evaluate limit (b.runParts limit))
      (Kind.compare.compile b.codeParts) := by
  refine .lift fun comparison _ => ?_
  refine (mirrors_evaluate hslots "A").bind fun v l hl => ?_
  refine (mirrors_evaluate hslots "B").bind fun w r hr => .check fun decided hdecided => .pure ?_
  have hop : comparison.operator.decides v.target = false := by cases comparison <;> rfl
  have hholds := hl.binary hr hop
  rw [Value.holds_target hdecided] at hholds
  exact hholds

theorem mirrors_not :
    Mirrors c (Code.Denotes names c.scopes) (Kind.not.evaluate limit (b.runParts limit))
      (Kind.not.compile b.codeParts) := by
  refine (mirrors_condition hslots "BOOL").map fun decided e h => ?_
  obtain ⟨w, hw, rfl⟩ := h
  exact hw.unary .not

omit hslots in
theorem mirrors_operand {name : String}
    (hoperand : ∀ s ∈ b.values, s.name = name →
      Mirrors c (Computes names c) (evaluateChain limit s.chain) (compileExpression s.chain) ∧
        Gives (fun v => ∃ decided, v = .boolean decided) (evaluateChain limit s.chain)) :
    Mirrors c (fun decided e => Denotes names c.scopes e (.boolean decided))
      ((b.runParts limit).evaluateCondition name) (b.codeParts.compile name) := by
  have hplug : Mirrors c (fun v e => Computes names c v e ∧ ∃ decided, v = .boolean decided)
      ((b.runParts limit).evaluate name) (b.codeParts.compile name) := by
    refine (mirrors_plug fun s hs hname => ?_).bind fun _ _ h => h.2
    obtain ⟨hmirrors, hgives⟩ := hoperand s hs hname
    intro v c₁ κ e κ₁ hm hd
    obtain ⟨hc, he⟩ := hmirrors v c₁ κ e κ₁ hm hd
    exact ⟨hc, he, hgives c v c₁ hm⟩
  intro decided c₂ κ e κ₁ hm hd
  obtain ⟨v, c₁, hv, hdecided⟩ := bind_eq_ok.1 hm
  obtain ⟨hx, rfl⟩ := Run.lift_eq_ok.1 hdecided
  obtain ⟨rfl, he, d, rfl⟩ := hplug v c₁ κ e κ₁ hv hd
  obtain rfl := Except.ok.inj hx
  exact ⟨rfl, he⟩

omit hslots in
/-- The second operand is compiled in any case but run only if the first one does not decide. -/
theorem mirrors_junction
    (hoperands : ∀ s ∈ b.values, s.name = "A" ∨ s.name = "B" →
      Mirrors c (Computes names c) (evaluateChain limit s.chain) (compileExpression s.chain) ∧
        Gives (fun v => ∃ decided, v = .boolean decided) (evaluateChain limit s.chain)) :
    Mirrors c (Code.Denotes names c.scopes) (Kind.junction.evaluate limit (b.runParts limit))
      (Kind.junction.compile b.codeParts) := by
  have hA := mirrors_operand fun s hs hname => hoperands s hs (.inl hname)
  have hB := mirrors_operand fun s hs hname => hoperands s hs (.inr hname)
  refine .lift fun junction _ => hA.bind fun first l hl => ?_
  cases junction with
  | and =>
    cases first with
    | true => exact hB.map fun second r hr => hl.binary hr rfl
    | false => exact .skip fun r => .pure (hl.decided rfl)
  | or =>
    cases first with
    | true => exact .skip fun r => .pure (hl.decided rfl)
    | false => exact hB.map fun second r hr => hl.binary hr rfl

theorem mirrors_ternary :
    Mirrors c (Code.Denotes names c.scopes) (Kind.ternary.evaluate limit (b.runParts limit))
      (Kind.ternary.compile b.codeParts) := by
  refine (mirrors_condition hslots "IF").bind fun decided e h => ?_
  obtain ⟨w, hw, rfl⟩ := h
  cases hdecided : w.truthy with
  | true =>
    show Mirrors c _ ((b.runParts limit).evaluate "THEN") _
    rw [← bind_pure ((b.runParts limit).evaluate "THEN")]
    exact (mirrors_evaluate hslots "THEN").bind fun v l hl =>
      .skip fun r => .pure (hw.conditional_true hdecided hl)
  | false =>
    show Mirrors c _ ((b.runParts limit).evaluate "ELSE") _
    rw [← bind_pure ((b.runParts limit).evaluate "ELSE")]
    exact .skip fun l => (mirrors_evaluate hslots "ELSE").map fun v r hr =>
      hw.conditional_false hdecided hr

/-! ### Numbers -/

theorem mirrors_arithmetic :
    Mirrors c (Code.Denotes names c.scopes) (Kind.arithmetic.evaluate limit (b.runParts limit))
      (Kind.arithmetic.compile b.codeParts) := by
  refine .lift fun operation _ => ?_
  refine (mirrors_number hslots "A").bind fun x l hl => ?_
  refine (mirrors_number hslots "B").map fun y r hr => ?_
  have hop : operation.operator.decides (.number x) = false := by cases operation <;> rfl
  have happly : operation.operator.apply (.number x) (.number y) = .number (operation.apply x y) := by
    cases operation <;> rfl
  have hresult := hl.binary hr hop
  rw [happly] at hresult
  exact hresult

theorem mirrors_function :
    Mirrors c (Code.Denotes names c.scopes) (Kind.function.evaluate limit (b.runParts limit))
      (Kind.function.compile b.codeParts) := by
  refine .lift fun function _ => (mirrors_number hslots "NUM").map fun x e he => ?_
  cases function with
  | negate => exact he.unary .negate
  | powerOfTen => exact (Denotes.num 10).binary he rfl
  | _ => exact .call (.one he) rfl

theorem mirrors_round :
    Mirrors c (Code.Denotes names c.scopes) (Kind.round.evaluate limit (b.runParts limit))
      (Kind.round.compile b.codeParts) := by
  refine .lift fun rounding _ => (mirrors_number hslots "NUM").map fun x e he => ?_
  have hcall : callHelper? rounding.helper [.number x] = some (.number (rounding.apply x)) := by
    cases rounding <;> rfl
  exact .call (.one he) hcall

theorem mirrors_property :
    Mirrors c (Code.Denotes names c.scopes) (Kind.property.evaluate limit (b.runParts limit))
      (Kind.property.compile b.codeParts) := by
  refine .lift fun property _ => ?_
  have hnumber := mirrors_number hslots "NUMBER_TO_CHECK"
  refine Mirrors.expression (hnumber.bind fun x e he => ?_)
  cases property with
  | prime => exact fun _ _ _ _ _ _ hd => (throw_eq_ok.1 hd).elim
  | even => exact .pure (he.remainderIs (.num 2) 0)
  | odd => exact .pure (he.remainderIs (.num 2) 1)
  | whole => exact .pure (he.remainderIs (.num 1) 0)
  | positive =>
    have horder : decide (Order.ofFloats x 0 = .greater) = decide (x > 0) :=
      decide_eq_decide.2 (Order.ofFloats_greater x 0)
    have hresult := he.binary (.num 0) (rfl : BinaryOp.greater.decides _ = false)
    refine .pure (?_ : Denotes _ _ _ (.boolean (decide (x > 0))))
    rw [← horder]
    exact hresult
  | negative =>
    have horder : decide (Order.ofFloats x 0 = .less) = decide (x < 0) :=
      decide_eq_decide.2 (Order.ofFloats_less x 0)
    have hresult := he.binary (.num 0) (rfl : BinaryOp.less.decides _ = false)
    refine .pure (?_ : Denotes _ _ _ (.boolean (decide (x < 0))))
    rw [← horder]
    exact hresult
  | divisible =>
    exact (mirrors_number hslots "DIVISOR").map fun y divisor hdivisor => he.remainderIs hdivisor 0

theorem mirrors_modulo :
    Mirrors c (Code.Denotes names c.scopes) (Kind.modulo.evaluate limit (b.runParts limit))
      (Kind.modulo.compile b.codeParts) :=
  (mirrors_number hslots "DIVIDEND").bind fun _ _ hl =>
    (mirrors_number hslots "DIVISOR").map fun _ _ hr => hl.modulo hr

theorem mirrors_constrain :
    Mirrors c (Code.Denotes names c.scopes) (Kind.constrain.evaluate limit (b.runParts limit))
      (Kind.constrain.compile b.codeParts) := by
  refine Mirrors.expression ((mirrors_number hslots "VALUE").bind fun x e he => ?_)
  refine (mirrors_number hslots "LOW").bind fun low l hl => ?_
  refine (mirrors_number hslots "HIGH").map fun high r hr => ?_
  have hmax : Denotes names c.scopes (.call "Math.max" [e, l]) (.number (Number.maximum x low)) :=
    .call (.two he hl) rfl
  exact .call (.two hmax hr) rfl

end

end Blockwork
