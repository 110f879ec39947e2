import Blockwork.Block.Kind

/-! Registries of kinds by tag. -/

namespace Blockwork

structure Registry (κ : Type) where
  kinds : Entries κ := []

namespace Registry

variable {κ : Type}

def register (r : Registry κ) (tag : String) (kind : κ) : Registry κ := ⟨r.kinds.put tag kind⟩

def find (r : Registry κ) (tag : String) : Except EngineError κ :=
  match r.kinds.get? tag with
  | some kind => .ok kind
  | none => .error (.unknownKind tag)

def contains (r : Registry κ) (tag : String) : Bool := r.kinds.contains tag

def size (r : Registry κ) : Nat := r.kinds.length

def tags (r : Registry κ) : List String := r.kinds.names.mergeSort fun s t => s ≤ t

def describe (r : Registry κ) : String :=
  "Registry \x7b tags: [" ++ ", ".intercalate (r.tags.map Text.visible.quote) ++ "] \x7d"

def standard (embed : Kind → κ) : Registry κ := ⟨Kind.tags.map fun (tag, kind) => (tag, embed kind)⟩

end Registry
end Blockwork
