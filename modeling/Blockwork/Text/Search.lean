/-! Texts inside other texts and at their ends. -/

namespace Blockwork.Text

def occursInChars (needle : List Char) : List Char → Bool
  | [] => needle.isEmpty
  | c :: rest => needle.isPrefixOf (c :: rest) || occursInChars needle rest

theorem occursInChars_iff (needle cs : List Char) :
    occursInChars needle cs = true ↔ needle <:+: cs := by
  induction cs with
  | nil => simp [occursInChars]
  | cons c rest ih =>
    simp only [occursInChars, Bool.or_eq_true, ih, List.infix_cons_iff, List.isPrefixOf_iff_prefix]

def occursIn (needle s : String) : Bool := occursInChars needle.toList s.toList

def dropSuffixes (suffix cs : List Char) : List Char :=
  if h : suffix ≠ [] ∧ suffix <:+ cs then
    have : cs.length - suffix.length < cs.length := by
      have hle := h.2.length_le
      have hpos := List.length_pos_iff.2 h.1
      omega
    dropSuffixes suffix (cs.take (cs.length - suffix.length))
  else cs
termination_by cs.length

end Blockwork.Text
