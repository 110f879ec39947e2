import Blockwork.Command.Tests
import Blockwork.Proofs.Testing.Categories
import Blockwork.Proofs.Testing.Discovery

/-! The cases that a test run takes: those in the folders that are asked for and below them, in an order
that the listings of the folders have no part in. -/

namespace Blockwork

/-! ### The order of paths -/

namespace Path

end Path

namespace Testing

/-! ### The cases of a suite -/

namespace Suite

variable {files : List Path} {wanted : List String}

def cases (s : Suite) : List Path := s.categories.flatMap Category.files

def category (files : List Path) (name : String) : Category :=
  ⟨name, (files.filter (categoryOf · = name)).mergeSort Path.precedes⟩

theorem isEmpty_iff {s : Suite} (h : ∀ c ∈ s.categories, c.files ≠ []) :
    s.isEmpty = true ↔ s.cases = [] := by
  rw [isEmpty, List.isEmpty_iff, cases, List.flatMap_eq_nil_iff]
  constructor
  · rintro hnil c hc
    exact absurd hc (hnil ▸ List.not_mem_nil)
  · intro hnil
    exact List.eq_nil_iff_forall_not_mem.2 fun c hc => h c hc (hnil c hc)

end Suite

end Testing

/-! ### Runs -/

namespace Command

open Testing

section

variable {m : Type → Type} [Monad m] [LawfulMonad m] (disk : Disk m) (limit : ℕ) (root : String)

end

section

variable {entries : List (String × FileTree)} (hnamed : (FileTree.folder entries).WellNamed)
  {wanted : List Path} (hwanted : ∀ want ∈ wanted, IsCategoryPath want)

end

def nested : List (String × FileTree) :=
  [("a", .folder [("b", .folder [("y.test.toml", .file)]), ("x.test.toml", .file)]),
    ("ab", .folder [("z.test.toml", .file), ("p.json", .file)])]

end Command
end Blockwork
