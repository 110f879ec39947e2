import Blockwork.Compiler.Statements
import Blockwork.Proofs.Block.Induction

/-! The variables that compiled loops bring with them. Their last characters tell their sorts apart,
and loops of one sort differ in their depth or in their variable; so a loop body leaves alone what the
loops around it rely on. -/

namespace Blockwork

open Parts (counterName)

def counterNames (depth : Nat) : List String := [counterName depth, counterName depth ++ "_end"]

def rangeNames (name : String) : List String := [name ++ "_start", name ++ "_end", name ++ "_inc"]

/-! ### Names are different -/

def lastChar (s : String) : Option Char := s.toList.getLast?

theorem lastChar_append (s : String) {t : String} {x : Char} (h : lastChar t = some x) :
    lastChar (s ++ t) = some x := by
  unfold lastChar at h ⊢
  rw [String.toList_append, List.getLast?_append, h, Option.some_or]

theorem append_ne (s : String) {t : String} (s' : String) {t' : String} {x y : Char}
    (ht : lastChar t = some x) (ht' : lastChar t' = some y) (h : x ≠ y) : s ++ t ≠ s' ++ t' := by
  intro heq
  have hlast := congrArg lastChar heq
  rw [lastChar_append s ht, lastChar_append s' ht'] at hlast
  exact h (Option.some.inj hlast)

theorem lastChar_repr (k : Nat) : ∃ x, lastChar (Nat.repr k) = some x ∧ x.isDigit = true := by
  unfold lastChar
  rw [Nat.toList_repr]
  refine ⟨_, List.getLast?_eq_some_getLast Nat.toDigits_ne_nil, ?_⟩
  exact Nat.isDigit_of_mem_toDigits (by decide) (by decide) (List.getLast_mem _)

theorem counterName_inj {k l : Nat} (h : counterName k = counterName l) : k = l := by
  have hrepr : Nat.repr k = Nat.repr l := (String.append_right_inj _).1 h
  have hdigits := congrArg String.toList hrepr
  rw [Nat.toList_repr, Nat.toList_repr] at hdigits
  have hvalue := congrArg (Nat.ofDigitChars 10 · 0) hdigits
  simpa using hvalue

theorem counterName_ne_append (k : Nat) (s : String) {t : String} {x : Char}
    (ht : lastChar t = some x) (hx : x.isDigit = false) : counterName k ≠ s ++ t := by
  obtain ⟨y, hy, hdigit⟩ := lastChar_repr k
  refine append_ne _ _ hy ht ?_
  rintro rfl
  rw [hdigit] at hx
  exact absurd hx (by decide)

theorem counterNames_disjoint {k l : Nat} (h : k ≠ l) {name : String}
    (hk : name ∈ counterNames k) : name ∉ counterNames l := by
  have hname : counterName k ≠ counterName l := fun heq => h (counterName_inj heq)
  have hend : ∀ i j, counterName i ≠ counterName j ++ "_end" := fun i j =>
    counterName_ne_append i _ (x := 'd') rfl rfl
  simp only [counterNames, List.mem_cons, List.not_mem_nil, or_false, not_or] at hk ⊢
  rcases hk with rfl | rfl
  · exact ⟨hname, hend k l⟩
  · exact ⟨(hend l k).symm, fun heq => hname ((String.append_left_inj _).1 heq)⟩

theorem head?_counterNames {k : Nat} {name : String} (h : name ∈ counterNames k) :
    name.toList.head? = some 'c' := by
  simp only [counterNames, List.mem_cons, List.not_mem_nil, or_false] at h
  rcases h with rfl | rfl <;> simp [counterName]

theorem rangeNames_disjoint {v w : String} (h : v ≠ w) {name : String}
    (hv : name ∈ rangeNames v) : name ∉ rangeNames w := by
  have hinj : ∀ t : String, v ++ t ≠ w ++ t := fun t heq => h ((String.append_left_inj _).1 heq)
  simp only [rangeNames, List.mem_cons, List.not_mem_nil, or_false, not_or] at hv ⊢
  rcases hv with rfl | rfl | rfl
  · exact ⟨hinj _, append_ne _ _ (x := 't') (y := 'd') rfl rfl (by decide),
      append_ne _ _ (x := 't') (y := 'c') rfl rfl (by decide)⟩
  · exact ⟨append_ne _ _ (x := 'd') (y := 't') rfl rfl (by decide), hinj _,
      append_ne _ _ (x := 'd') (y := 'c') rfl rfl (by decide)⟩
  · exact ⟨append_ne _ _ (x := 'c') (y := 't') rfl rfl (by decide),
      append_ne _ _ (x := 'c') (y := 'd') rfl rfl (by decide), hinj _⟩

/-- Only the bound of a counter could be the end of a range, namely of one with that counter as its
variable. -/
theorem counterNames_range {k : Nat} {v name : String} (h : v ≠ counterName k)
    (hk : name ∈ counterNames k) : name ∉ rangeNames v := by
  simp only [counterNames, rangeNames, List.mem_cons, List.not_mem_nil, or_false, not_or] at hk ⊢
  rcases hk with rfl | rfl
  · exact ⟨counterName_ne_append k v (x := 't') rfl rfl, counterName_ne_append k v (x := 'd') rfl rfl,
      counterName_ne_append k v (x := 'c') rfl rfl⟩
  · exact ⟨append_ne _ _ (x := 'd') (y := 't') rfl rfl (by decide),
      fun heq => h ((String.append_left_inj _).1 heq).symm,
      append_ne _ _ (x := 'd') (y := 'c') rfl rfl (by decide)⟩

/-! ### Names that a body leaves alone -/

mutual

def Block.ranges : Block Kind → List String
  | ⟨kind, _, _, fields, _, statements, _, _⟩ =>
    (if kind = .countRange then (fields.get? "VAR").toList else []) ++ slotRanges statements

def slotRanges : List (Socket Kind) → List String
  | [] => []
  | ⟨_, chain⟩ :: rest => chainRanges chain ++ slotRanges rest

def chainRanges : List (Block Kind) → List String
  | [] => []
  | block :: rest => block.ranges ++ chainRanges rest

end

theorem Block.ranges_eq (b : Block Kind) : b.ranges =
    (if b.kind = .countRange then (b.fields.get? "VAR").toList else []) ++
      slotRanges b.statements := by
  cases b
  rfl

theorem mem_slotRanges {sockets : List (Socket Kind)} {v : String} :
    v ∈ slotRanges sockets ↔ ∃ s ∈ sockets, v ∈ chainRanges s.chain := by
  induction sockets with
  | nil => simp [slotRanges]
  | cons s rest ih =>
    obtain ⟨name, chain⟩ := s
    rw [slotRanges, List.mem_append, ih]
    simp

structure Free (names : List String) (depth : Nat) (ranges : List String) (name : String) :
    Prop where
  unbound : name ∉ names
  counters : ∀ k, depth ≤ k → name ∉ counterNames k
  ranges : ∀ v ∈ ranges, name ∉ rangeNames v

namespace Free

variable {names ranges ranges' : List String} {depth depth' : Nat} {name v : String}

theorem mono (h : Free names depth ranges name) (hdepth : depth ≤ depth')
    (hranges : ranges' ⊆ ranges) : Free names depth' ranges' name :=
  ⟨h.unbound, fun k hk => h.counters k (Nat.le_trans hdepth hk),
    fun v hv => h.ranges v (hranges hv)⟩

theorem deeper (name : String) (h : Free names depth ranges name) :
    Free names (depth + 1) ranges name :=
  h.mono (Nat.le_succ depth) (List.Subset.refl ranges)

theorem of_counter (hname : name ∈ counterNames depth) (hunbound : name ∉ names)
    (hranges : ∀ v ∈ ranges, v ≠ counterName depth) : Free names (depth + 1) ranges name := by
  refine ⟨hunbound, fun k hk => ?_, fun v hv => counterNames_range (hranges v hv) hname⟩
  have hne : depth ≠ k := by omega
  exact counterNames_disjoint hne hname

theorem of_range (hname : name ∈ rangeNames v) (hunbound : name ∉ names)
    (hcounter : ∀ k, v ≠ counterName k) (hranges : v ∉ ranges) : Free names depth ranges name := by
  refine ⟨hunbound, fun k _ hk => counterNames_range (hcounter k) hk hname, fun w hw => ?_⟩
  have hne : v ≠ w := fun heq => hranges (heq ▸ hw)
  exact rangeNames_disjoint hne hname

end Free
end Blockwork
