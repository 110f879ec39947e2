import Mathlib
import Blockwork.Interpreter.Expressions

/-! Texts as UTF-16 code units, and their order by units beside their order by code points. A
character beyond the basic plane has a surrogate for its first unit, and the plane has characters
after the surrogates. The two orders part where the first difference is between such characters, and
nowhere else. -/

namespace Blockwork.Text

/-- The code units of a character: its code point, or a pair of surrogates. -/
def unitsOf (c : Char) : List Nat :=
  if c.toNat < 0x10000 then [c.toNat]
  else [0xD800 + (c.toNat - 0x10000) / 0x400, 0xDC00 + (c.toNat - 0x10000) % 0x400]

def units : List Char → List Nat
  | [] => []
  | c :: rest => unitsOf c ++ units rest

/-- The first character is in the basic plane after the surrogates, the second one beyond it. -/
def passes (c d : Char) : Bool := 0xE000 ≤ c.toNat && c.toNat < 0x10000 && 0x10000 ≤ d.toNat

/-- The texts differ first in two characters of which one passes the other. -/
def crosses : List Char → List Char → Bool
  | c :: cs, d :: ds => if c = d then crosses cs ds else passes c d || passes d c
  | _, _ => false

theorem length_unitsOf (c : Char) : (unitsOf c).length = unitsOfChar c := by
  unfold unitsOf unitsOfChar
  split <;> rfl

theorem length_units (cs : List Char) : (units cs).length = unitCount cs := by
  induction cs with
  | nil => rfl
  | cons c rest ih => rw [units, List.length_append, length_unitsOf, ih, unitCount]

theorem toNat_lt_or_gt (c : Char) :
    c.toNat < 0xD800 ∨ 0xDFFF < c.toNat ∧ c.toNat < 0x110000 := by
  have h := c.valid
  simp only [UInt32.isValidChar, Nat.isValidChar] at h
  exact h

theorem append_lt_append {us xs ys : List Nat} : us ++ xs < us ++ ys ↔ xs < ys := by
  induction us with
  | nil => rfl
  | cons u us ih => simp [ih]

theorem unitsOf_ne_nil (c : Char) : unitsOf c ≠ [] := by
  unfold unitsOf
  split <;> simp

theorem unitsOf_append_lt {c d : Char} (h : c ≠ d) (xs ys : List Nat) :
    unitsOf c ++ xs < unitsOf d ++ ys ↔ if passes c d || passes d c then d < c else c < d := by
  have hne : c.toNat ≠ d.toNat := fun heq => h (Char.toNat_inj.1 heq)
  have hlt : ∀ c d : Char, c < d ↔ c.toNat < d.toNat := fun c d => Char.lt_def.trans Iff.rfl
  have hc := toNat_lt_or_gt c
  have hd := toNat_lt_or_gt d
  simp only [unitsOf, passes, hlt]
  split <;> split <;> simp [List.cons_lt_cons_iff] <;> split <;> omega

/-- The order by units is the order by code points, or its reverse where the texts cross. -/
theorem units_lt_iff (s t : List Char) :
    units s < units t ↔ if crosses s t then t < s else s < t := by
  induction s, t using crosses.induct with
  | case1 c cs ds ih => simp [units, crosses, append_lt_append, ih]
  | case2 c cs d ds h =>
    rw [units, units, unitsOf_append_lt h, crosses, if_neg h]
    simp [List.cons_lt_cons_iff, h, Ne.symm h]
  | case3 s t h =>
    cases s with
    | nil =>
      cases t with
      | nil => simp [units, crosses]
      | cons d ds =>
        obtain ⟨u, us, hd⟩ := List.exists_cons_of_ne_nil (unitsOf_ne_nil d)
        simp [units, crosses, hd]
    | cons c cs =>
      cases t with
      | nil => simp [units, crosses]
      | cons d ds => exact (h c cs d ds rfl rfl).elim

theorem crosses_self (s : List Char) : crosses s s = false := by
  induction s with
  | nil => rfl
  | cons c cs ih => simpa [crosses] using ih

theorem crosses_comm (s t : List Char) : crosses s t = crosses t s := by
  induction s, t using crosses.induct with
  | case1 c cs ds ih => simpa [crosses] using ih
  | case2 c cs d ds h => simp [crosses, h, Ne.symm h, Bool.or_comm]
  | case3 s t h =>
    cases s with
    | nil => cases t <;> rfl
    | cons c cs =>
      cases t with
      | nil => rfl
      | cons d ds => exact (h c cs d ds rfl rfl).elim

theorem units_injective {s t : List Char} (h : units s = units t) : s = t := by
  have hst := units_lt_iff s t
  have hts := units_lt_iff t s
  rw [h] at hst hts
  rw [crosses_comm t s] at hts
  by_contra hne
  rcases lt_or_gt_of_ne hne with hlt | hlt <;> by_cases hcross : crosses s t <;> simp_all

end Blockwork.Text

namespace Blockwork

def Order.reverse : Order → Order
  | .less => .greater
  | .greater => .less
  | o => o

def Order.byUnits (s t : String) : Order :=
  if Text.units s.toList < Text.units t.toList then .less
  else if Text.units s.toList = Text.units t.toList then .equal else .greater

theorem Order.byUnits_eq (s t : String) : Order.byUnits s t =
    if Text.crosses s.toList t.toList then (Order.ofTexts s t).reverse else Order.ofTexts s t := by
  have hequal : Text.units s.toList = Text.units t.toList ↔ s = t :=
    ⟨fun h => String.toList_injective (Text.units_injective h), fun h => h ▸ rfl⟩
  unfold Order.byUnits Order.ofTexts
  simp only [Text.units_lt_iff, hequal, String.lt_iff]
  by_cases hcross : Text.crosses s.toList t.toList
  · have hne : s ≠ t := fun h => by simp [h, Text.crosses_self] at hcross
    have htotal : s.toList < t.toList ∨ t.toList < s.toList :=
      lt_or_gt_of_ne fun h => hne (String.toList_injective h)
    rcases htotal with h | h <;> simp [hcross, hne, h, h.not_gt, Order.reverse]
  · simp [hcross]

end Blockwork
