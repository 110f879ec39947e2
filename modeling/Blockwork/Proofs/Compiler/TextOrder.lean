import Blockwork.Compiler.Statements
import Blockwork.Proofs.Block.Induction
import Blockwork.Proofs.Target.Execution
import Blockwork.Proofs.Text.CodeUnits

/-! Comparisons of texts. A run orders texts by code points, and so does the execution of programs
that runs are held against. The language of the programs orders them by UTF-16 code units. -/

namespace Blockwork

open Target

/-- What an operator answers about two operands in an order. Only four operators ask for it. -/
def Target.BinaryOp.answer? : BinaryOp → Order → Option Bool
  | .less, o => some (o = .less)
  | .lessOrEqual, o => some (o = .less || o = .equal)
  | .greater, o => some (o = .greater)
  | .greaterOrEqual, o => some (o = .greater || o = .equal)
  | _, _ => none

theorem Target.BinaryOp.apply_of_answer? {op : BinaryOp} {v w : Target.Value} {r : Bool}
    (h : op.answer? (v.order w) = some r) : op.apply v w = .boolean r := by
  cases op <;> simp_all [BinaryOp.answer?, BinaryOp.apply]

def Comparison.isOrdering : Comparison → Bool
  | .equal | .notEqual => false
  | .less | .lessOrEqual | .greater | .greaterOrEqual => true

namespace Comparison

variable {cmp : Comparison} {s t : String}

theorem holds_texts (hcmp : cmp.isOrdering) (s t : String) :
    ∃ r, cmp.holds (.text s) (.text t) = .ok r ∧
      cmp.operator.answer? (.ofTexts s t) = some r := by
  cases cmp with
  | equal | notEqual => exact absurd hcmp Bool.false_ne_true
  | _ => exact ⟨_, rfl, rfl⟩

theorem answer?_reverse (h : s ≠ t) {r : Bool}
    (hr : cmp.operator.answer? (.ofTexts s t) = some r) :
    cmp.operator.answer? (Order.ofTexts s t).reverse = some !r := by
  have ho : Order.ofTexts s t = .less ∨ Order.ofTexts s t = .greater := by
    unfold Order.ofTexts
    split
    · exact .inl rfl
    · exact .inr rfl
  rcases ho with ho | ho <;> rw [ho] at hr ⊢ <;> cases cmp <;>
    simp_all [operator, BinaryOp.answer?, Order.reverse]

theorem answer?_byUnits {r : Bool} (hr : cmp.operator.answer? (.ofTexts s t) = some r) :
    cmp.operator.answer? (.byUnits s t) = some (r ^^ Text.crosses s.toList t.toList) := by
  rw [Order.byUnits_eq]
  cases hcross : Text.crosses s.toList t.toList with
  | false => simpa using hr
  | true =>
    have hne : s ≠ t := fun h => by simp [h, Text.crosses_self] at hcross
    simpa using answer?_reverse hne hr

end Comparison

section

variable {b : Block Kind} {cmp : Comparison}

theorem outcome_compare {limit : Nat} {v w : Value} {r : Bool} {c c₁ c₂ : Context Value}
    (hkind : b.kind = .compare)
    (hop : (b.runParts limit).option "OP" Comparison.options = .ok cmp)
    (hleft : outcome ((b.runParts limit).evaluate "A") c = (.ok v, c₁))
    (hright : outcome ((b.runParts limit).evaluate "B") c₁ = (.ok w, c₂))
    (hr : cmp.holds v w = .ok r) :
    outcome (b.evaluate limit) c = (.ok (.boolean r), c₂) := by
  rw [b.evaluate_eq, hkind]
  exact bind_eq_ok.2 ⟨_, _, Run.lift_eq_ok.2 ⟨hop, rfl⟩, bind_eq_ok.2 ⟨_, _, hleft,
    bind_eq_ok.2 ⟨_, _, hright, bind_eq_ok.2 ⟨_, _, Run.lift_eq_ok.2 ⟨hr, rfl⟩, rfl⟩⟩⟩⟩

theorem compile_compare {code : Code} {κ κ' : Context Expr} (hkind : b.kind = .compare)
    (hop : b.codeParts.option "OP" Comparison.options = .ok cmp)
    (hcode : outcome b.compile κ = (.ok code, κ')) :
    ∃ left right, code = .expression (.binary cmp.operator left right) := by
  rw [b.compile_eq, hkind] at hcode
  change outcome (Kind.compare.compile b.codeParts) κ = (.ok code, κ') at hcode
  obtain ⟨cmp', _, hcmp, hcode⟩ := bind_eq_ok.1 hcode
  obtain ⟨hop', -⟩ := Prod.mk.inj hcmp
  obtain rfl := Except.ok.inj (hop.symm.trans hop')
  obtain ⟨left, _, -, hcode⟩ := bind_eq_ok.1 hcode
  obtain ⟨right, _, -, hcode⟩ := bind_eq_ok.1 hcode
  obtain ⟨rfl, -⟩ := pure_eq_ok.1 hcode
  exact ⟨left, right, rfl⟩

end

/-- A comparison of two texts by order always gives a truth value, and an execution of the generated
operator gives the same one. The language of the programs gives the same one too, and the other one
just if the texts cross. The units that it compares are those that the length of a text counts. -/
theorem compare_texts_beside_units (limit : Nat) {b : Block Kind} {cmp : Comparison}
    {s t : String} {c c₁ c₂ : Context Value} (hkind : b.kind = .compare)
    (hop : (b.runParts limit).option "OP" Comparison.options = .ok cmp) (hcmp : cmp.isOrdering)
    (hleft : outcome ((b.runParts limit).evaluate "A") c = (.ok (.text s), c₁))
    (hright : outcome ((b.runParts limit).evaluate "B") c₁ = (.ok (.text t), c₂)) :
    (∃ r, outcome (b.evaluate limit) c = (.ok (.boolean r), c₂) ∧
      cmp.operator.apply (.text s) (.text t) = .boolean r ∧
      cmp.operator.answer? (.byUnits s t) = some (r ^^ Text.crosses s.toList t.toList)) ∧
    (∀ code κ κ', outcome b.compile κ = (.ok code, κ') →
      ∃ left right, code = .expression (.binary cmp.operator left right)) ∧
    (Text.units s.toList).length = Text.unitCount s.toList ∧
    (Text.units t.toList).length = Text.unitCount t.toList := by
  obtain ⟨r, hholds, hanswer⟩ := Comparison.holds_texts hcmp s t
  refine ⟨?_, ?_, Text.length_units _, Text.length_units _⟩
  · exact ⟨r, outcome_compare hkind hop hleft hright hholds, BinaryOp.apply_of_answer? hanswer,
      Comparison.answer?_byUnits hanswer⟩
  · intro code κ κ' hcode
    exact compile_compare hkind (Parts.option_eq_ok.2 (Parts.option_eq_ok.1 hop)) hcode

def textBlock (text id : String) : Block Kind := ⟨.text, "text", id, [("TEXT", text)], [], [], [], []⟩

def tildeBeforeSmile : Block Kind :=
  ⟨.compare, "logic_compare", "c", [("OP", "LT")],
    [⟨"A", [textBlock "～" "a"]⟩, ⟨"B", [textBlock "😀" "b"]⟩], [], [], []⟩

theorem tildeBeforeSmile_beside_units :
    (∃ r, outcome (tildeBeforeSmile.evaluate 1) {} = (.ok (.boolean r), {}) ∧
      Comparison.less.operator.apply (.text "～") (.text "😀") = .boolean r ∧
      Comparison.less.operator.answer? (.byUnits "～" "😀") =
        some (r ^^ Text.crosses "～".toList "😀".toList)) ∧
    (∀ code κ κ', outcome tildeBeforeSmile.compile κ = (.ok code, κ') →
      ∃ left right, code = .expression (.binary .less left right)) ∧
    (Text.units "～".toList).length = Text.unitCount "～".toList ∧
    (Text.units "😀".toList).length = Text.unitCount "😀".toList := by
  have hop : (tildeBeforeSmile.runParts 1).option "OP" Comparison.options = .ok .less := rfl
  exact compare_texts_beside_units 1 rfl hop rfl rfl rfl

/-- The run has the tilde before the smile, the generated operator has it after the smile. -/
theorem tildeBeforeSmile_differs :
    outcome (tildeBeforeSmile.evaluate 1) {} = (.ok (.boolean true), {}) ∧
      outcome tildeBeforeSmile.compile {} =
        (.ok (.expression (.binary .less (.text "～") (.text "😀"))), {}) ∧
      BinaryOp.answer? .less (.byUnits "～" "😀") = some false := by
  exact ⟨rfl, rfl, by decide⟩

end Blockwork
