import Mathlib
import Blockwork.Testing.Suite

/-! The categories of test cases. A category is the text of its names with a slash between each two, and
a request for it is a text too; whether one lies below the other is decided by the names alone. -/

namespace Blockwork.Testing

/-! ### Rows of names with separators -/

section Separators

variable {α : Type} (x : α) {ls ls' : List (List α)}

section

variable [DecidableEq α]

end

end Separators

/-! ### Categories by their names -/

/-- A name of a category as it may be asked for: names in a row, none of them empty. -/
structure IsCategoryPath (wanted : Path) : Prop where
  ne_nil : wanted ≠ []
  names : ∀ name ∈ wanted, name ≠ "" ∧ '/' ∉ name.toList

theorem IsCategoryPath.chars {wanted : Path} (h : IsCategoryPath wanted) {l : List Char}
    (hl : l ∈ wanted.map String.toList) : l ≠ [] ∧ '/' ∉ l := by
  obtain ⟨name, hname, rfl⟩ := List.mem_map.1 hl
  obtain ⟨hne, hslash⟩ := h.names name hname
  exact ⟨fun hnil => hne (String.toList_eq_nil_iff.1 hnil), hslash⟩

end Blockwork.Testing
