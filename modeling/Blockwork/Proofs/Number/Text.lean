import Blockwork.Proofs.Number.Sign

/-! The display text of a number: a minus sign stands in front of negative numbers alone, and all
else is a word or decimal digits. -/

namespace Blockwork.Number

open Float.Model (UnpackedFloat)

def IsNumeral (s : String) : Prop := ∃ whole fraction, s.toList = whole ++ fraction ∧
  whole ≠ [] ∧ (∀ c ∈ whole, c.isDigit = true) ∧
    (fraction = [] ∨ ∃ ds, fraction = '.' :: ds ∧ ∀ c ∈ ds, c.isDigit = true)

theorem Layout.isNumeral_inFull {digits : List Char} (hne : digits ≠ [])
    (hall : ∀ c ∈ digits, c.isDigit = true) (point : Int) :
    IsNumeral (display.inFull digits point) := by
  have hzeros : ∀ n, ∀ c ∈ (zeros n).toList, c.isDigit = true := by
    intro n c hc
    rw [zeros, String.toList_ofList, List.mem_replicate] at hc
    rw [hc.2]
    rfl
  unfold inFull
  split
  · refine ⟨['0'], '.' :: ((zeros (-point).toNat).toList ++ digits), ?_, by simp, by simp,
      .inr ⟨_, rfl, ?_⟩⟩
    · simp
    · intro c hc
      rcases List.mem_append.1 hc with hc | hc
      · exact hzeros _ c hc
      · exact hall c hc
  · rename_i hpoint
    have hwhole : digits.take point.toNat ≠ [] := by
      rw [Ne, List.take_eq_nil_iff, not_or]
      exact ⟨by omega, hne⟩
    have hleft : ∀ c ∈ digits.take point.toNat ++ (zeros (point.toNat - digits.length)).toList,
        c.isDigit = true := by
      intro c hc
      rcases List.mem_append.1 hc with hc | hc
      · exact hall c (List.mem_of_mem_take hc)
      · exact hzeros _ c hc
    refine ⟨digits.take point.toNat ++ (zeros (point.toNat - digits.length)).toList,
      if (digits.drop point.toNat).isEmpty then [] else '.' :: digits.drop point.toNat,
      ?_, by simp [hwhole], hleft, ?_⟩
    · cases h : (digits.drop point.toNat).isEmpty <;> simp [h, display]
    · split
      · exact .inl rfl
      · exact .inr ⟨_, rfl, fun c hc => hall c (List.mem_of_mem_drop hc)⟩

theorem isNumeral_magnitude (b : Binary) : IsNumeral (display.magnitude b) := by
  unfold Layout.magnitude
  split
  · exact ⟨['0'], [], rfl, by simp, by simp, .inl rfl⟩
  · refine Layout.isNumeral_inFull ?_ ?_ _
    · exact Nat.toDigits_ne_nil
    · exact fun c hc => Nat.isDigit_of_mem_toDigits (by decide) (by decide) hc

theorem not_neg_of_neg {x : Float} (h : x < 0) : ¬ -x < 0 := by
  rw [lt_zero_iff] at h
  rw [lt_zero_iff, unpack_neg]
  rcases h with h | ⟨m, e, hm, h⟩ <;> rw [h] <;> rintro (h | ⟨_, _, _, h⟩) <;>
    exact absurd h (by simp [UnpackedFloat.neg, Neg.neg])

theorem text_of_neg {x : Float} (h : x < 0) : text x = "-" ++ text (-x) := by
  have hneg := not_neg_of_neg h
  rcases (lt_zero_iff x).1 h with hx | ⟨m, e, hm, hx⟩
  · have hx' : (-x).toModel.unpack = .infinity .positive := by rw [unpack_neg, hx]; rfl
    have hnan : x.isNaN = false := by rw [← Bool.not_eq_true, isNaN_iff, hx]; simp
    have hnan' : (-x).isNaN = false := by rw [← Bool.not_eq_true, isNaN_iff, hx']; simp
    rw [text, text, Layout.render, Layout.render, Binary.ofFloat?_eq, Binary.ofFloat?_eq, hx, hx']
    show (if x.isNaN then _ else if x < 0 then _ else _) =
      "-" ++ (if (-x).isNaN then _ else if -x < 0 then _ else _)
    rw [hnan, hnan', if_neg Bool.false_ne_true, if_pos h, if_neg Bool.false_ne_true, if_neg hneg]
  · have hx' : (-x).toModel.unpack = .finite .positive m e hm := by rw [unpack_neg, hx]; rfl
    rw [text, text, Layout.render, Layout.render, Binary.ofFloat?_eq, Binary.ofFloat?_eq, hx, hx']
    have hm' : (m != 0) = true := by simpa using Nat.ne_of_gt hm
    show (if (m != 0) = true then "-" else "") ++ display.magnitude ⟨true, m, e⟩ =
      "-" ++ ("" ++ display.magnitude ⟨false, m, e⟩)
    rw [if_pos hm', String.empty_append]
    rfl

theorem text_of_not_neg {x : Float} (h : ¬ x < 0) :
    text x = "NaN" ∨ text x = "Infinity" ∨ IsNumeral (text x) := by
  unfold text Layout.render
  split
  · rename_i b hb
    have hsign : (b.negative && (display.zeroSign || b.significand != 0)) = false := by
      rw [Binary.ofFloat?_eq] at hb
      rw [lt_zero_iff, not_or] at h
      rcases hx : x.toModel.unpack with _ | _ | s | ⟨s, m, e, hm⟩ <;> rw [hx] at hb h
      · exact absurd hb (by simp [Binary.ofUnpacked?])
      · exact absurd hb (by simp [Binary.ofUnpacked?])
      · obtain rfl := Option.some.inj hb
        exact Bool.and_false _
      · obtain rfl := Option.some.inj hb
        cases s with
        | negative => exact absurd ⟨m, e, hm, rfl⟩ h.2
        | positive => rfl
    rw [hsign]
    exact .inr (.inr (by simpa using isNumeral_magnitude b))
  · split
    · exact .inl rfl
    · exact .inr (.inl rfl)

end Blockwork.Number
