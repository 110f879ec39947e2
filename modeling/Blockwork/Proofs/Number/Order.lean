import Mathlib
import Blockwork.Interpreter.Expressions

/-! The order of two doubles, as one answer and as the comparisons that a program makes. -/

namespace Blockwork

open Float.Model (UnpackedFloat)

namespace Number

theorem compare_swap (x y : UnpackedFloat) : y.compare x = (x.compare y).map Ordering.swap := by
  rcases x with (_ | _) | _ | (_ | _) | ⟨_ | _, m, e, h⟩ <;>
  rcases y with (_ | _) | _ | (_ | _) | ⟨_ | _, m', e', h'⟩ <;>
  try rfl
  all_goals
    simp only [UnpackedFloat.compare, Option.map_some, Ordering.swap_then]
    have hexponents : compare e e' = (compare e' e).swap := Std.OrientedCmp.eq_swap
    have hmantissas : compare m m' = (compare m' m).swap := Std.OrientedCmp.eq_swap
    rw [hexponents, hmantissas]
    simp

theorem lt_iff (x y : Float) :
    x < y ↔ x.toModel.unpack.compare y.toModel.unpack = some .lt := by
  have h : x < y ↔ (x.toModel.unpack.compare y.toModel.unpack == some .lt) = true :=
    decide_eq_true_iff
  rw [h, beq_iff_eq]

theorem gt_iff (x y : Float) :
    x > y ↔ x.toModel.unpack.compare y.toModel.unpack = some .gt := by
  show y < x ↔ _
  rw [lt_iff, compare_swap]
  rcases x.toModel.unpack.compare y.toModel.unpack with _ | _ | _ | _ <;> simp

theorem beq_iff (x y : Float) :
    (x == y) = true ↔ x.toModel.unpack.compare y.toModel.unpack = some .eq := by
  show (x.toModel.unpack.compare y.toModel.unpack == some .eq) = true ↔ _
  rw [beq_iff_eq]

theorem le_iff (x y : Float) : x ≤ y ↔
    x.toModel.unpack.compare y.toModel.unpack = some .lt ∨
      x.toModel.unpack.compare y.toModel.unpack = some .eq := by
  have h : x ≤ y ↔ (x.toModel.unpack.compare y.toModel.unpack).any (·.isLE) = true :=
    decide_eq_true_iff
  rw [h]
  rcases x.toModel.unpack.compare y.toModel.unpack with _ | _ | _ | _ <;> simp

theorem ge_iff (x y : Float) : x ≥ y ↔
    x.toModel.unpack.compare y.toModel.unpack = some .gt ∨
      x.toModel.unpack.compare y.toModel.unpack = some .eq := by
  show y ≤ x ↔ _
  rw [le_iff, compare_swap]
  rcases x.toModel.unpack.compare y.toModel.unpack with _ | _ | _ | _ <;> simp

end Number

namespace Order

open Number

variable (x y : Float)

theorem ofFloats_eq : ofFloats x y =
    match x.toModel.unpack.compare y.toModel.unpack with
    | none => .unordered
    | some .lt => .less
    | some .eq => .equal
    | some .gt => .greater := by
  simp only [ofFloats, lt_iff, beq_iff, compare_swap x.toModel.unpack y.toModel.unpack]
  rcases x.toModel.unpack.compare y.toModel.unpack with _ | _ | _ | _ <;> simp

theorem ofFloats_less : ofFloats x y = .less ↔ x < y := by
  rw [ofFloats_eq, lt_iff]
  rcases x.toModel.unpack.compare y.toModel.unpack with _ | _ | _ | _ <;> simp

theorem ofFloats_greater : ofFloats x y = .greater ↔ x > y := by
  rw [ofFloats_eq, gt_iff]
  rcases x.toModel.unpack.compare y.toModel.unpack with _ | _ | _ | _ <;> simp

theorem ofFloats_le : ofFloats x y = .less ∨ ofFloats x y = .equal ↔ x ≤ y := by
  rw [ofFloats_eq, le_iff]
  rcases x.toModel.unpack.compare y.toModel.unpack with _ | _ | _ | _ <;> simp

theorem ofFloats_ge : ofFloats x y = .greater ∨ ofFloats x y = .equal ↔ x ≥ y := by
  rw [ofFloats_eq, ge_iff]
  rcases x.toModel.unpack.compare y.toModel.unpack with _ | _ | _ | _ <;> simp

end Order
end Blockwork
