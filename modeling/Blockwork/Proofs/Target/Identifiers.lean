import Blockwork.Proofs.Target.Pieces

/-! Names of variables as they are written. Two names are never written alike, and none is written as a
word of the language or as a name that programs call. -/

namespace Blockwork.Target

/-! ### Numbers of characters -/

theorem digitChar_inj : ∀ m < 16, ∀ n < 16, Nat.digitChar m = Nat.digitChar n → m = n := by decide

theorem toDigits_injective : Function.Injective (Nat.toDigits 16) := by
  intro m n h
  have hlong : ∀ j c d, [c] ≠ Nat.toDigits 16 j ++ [d] := fun j c d heq => by
    have hlength := congrArg List.length heq
    rw [List.length_append] at hlength
    exact Nat.toDigits_ne_nil (List.length_eq_zero_iff.1 (Nat.add_right_cancel hlength).symm)
  induction m using Nat.strongRecOn generalizing n with
  | ind m ih =>
    rw [Nat.toDigits_eq_if (by decide), Nat.toDigits_eq_if (b := 16) (n := n) (by decide)] at h
    split at h <;> split at h
    · exact digitChar_inj m ‹_› n ‹_› (List.singleton_inj.1 h)
    · exact absurd h (hlong _ _ _)
    · exact absurd h.symm (hlong _ _ _)
    · obtain ⟨hrest, hlast⟩ := List.append_inj' h rfl
      have hdiv := ih (m / 16) (by omega) hrest
      have hmod := digitChar_inj (m % 16) (by omega) (n % 16) (by omega) (List.singleton_inj.1 hlast)
      omega

theorem dollar_not_mem_toDigits (n : Nat) : '$' ∉ Nat.toDigits 16 n := by
  have hdigit : ∀ d < 16, '$' ≠ Nat.digitChar d := by decide
  induction n using Nat.strongRecOn with
  | ind n ih =>
    rw [Nat.toDigits_eq_if (by decide)]
    split
    · exact fun h => hdigit n ‹_› (List.mem_singleton.1 h)
    · rw [List.mem_append, List.mem_singleton, not_or]
      exact ⟨ih (n / 16) (by omega), hdigit (n % 16) (by omega)⟩

/-! ### Unique spelling -/

theorem append_mark_inj {x : Char} {xs ys s t : List Char} (hxs : x ∉ xs) (hys : x ∉ ys)
    (h : xs ++ x :: s = ys ++ x :: t) : xs = ys ∧ s = t := by
  induction xs generalizing ys with
  | nil =>
    cases ys with
    | nil => exact ⟨rfl, (List.cons.inj h).2⟩
    | cons y ys => exact absurd ((List.cons.inj h).1 ▸ List.mem_cons_self) hys
  | cons y xs ih =>
    cases ys with
    | nil => exact absurd ((List.cons.inj h).1 ▸ List.mem_cons_self) hxs
    | cons z ys =>
      obtain ⟨rfl, hrest⟩ := List.cons.inj h
      obtain ⟨rfl, rfl⟩ := ih (fun hx => hxs (List.mem_cons_of_mem _ hx))
        (fun hx => hys (List.mem_cons_of_mem _ hx)) hrest
      exact ⟨rfl, rfl⟩

/-- A letter, a digit or an underscore is no dollar sign, and there is none among the digits of a number
up to the closing one. So what is written for a character tells where it ends. -/
theorem mangleChar_append_inj {c d : Char} {s t : List Char}
    (h : mangleChar c ++ s = mangleChar d ++ t) : c = d ∧ s = t := by
  have hdollar : ∀ {e : Char}, isWordChar e = true → e ≠ '$' := by
    rintro _ he rfl
    exact absurd he (by decide)
  unfold mangleChar at h
  split at h <;> split at h
  · exact List.cons.inj h
  · exact absurd (List.cons.inj h).1 (hdollar ‹_›)
  · exact absurd (List.cons.inj h).1.symm (hdollar ‹_›)
  · rw [List.append_assoc, List.append_assoc] at h
    obtain ⟨hdigits, hrest⟩ := append_mark_inj (dollar_not_mem_toDigits _)
      (dollar_not_mem_toDigits _) (List.cons.inj h).2
    exact ⟨Char.toNat_inj.1 (toDigits_injective hdigits), hrest⟩

theorem mangleChar_ne_nil (c : Char) : mangleChar c ≠ [] := by
  unfold mangleChar
  split <;> exact List.cons_ne_nil _ _

theorem mangle_injective {cs ds : List Char} (h : cs.flatMap mangleChar = ds.flatMap mangleChar) :
    cs = ds := by
  induction cs generalizing ds with
  | nil =>
    cases ds with
    | nil => rfl
    | cons d ds => exact absurd (List.append_eq_nil_iff.1 h.symm).1 (mangleChar_ne_nil d)
  | cons c cs ih =>
    cases ds with
    | nil => exact absurd (List.append_eq_nil_iff.1 h).1 (mangleChar_ne_nil c)
    | cons d ds =>
      obtain ⟨rfl, hrest⟩ := mangleChar_append_inj h
      rw [ih hrest]

/-! ### Identifiers -/

theorem identifier_of_not_plain {name : String} (h : ¬isPlain name = true) :
    (identifier name).toList = '$' :: name.toList.flatMap mangleChar := by
  rw [identifier, if_neg h, String.toList_ofList]

theorem head?_of_plain {name : String} (h : isPlain name = true) : name.toList.head? ≠ some '$' := by
  intro hdollar
  simp only [isPlain, hdollar, Option.any_some, Bool.and_eq_true] at h
  exact absurd h.1.1 (by decide)

theorem identifier_injective : Function.Injective identifier := by
  -- Only what is mangled begins with a dollar sign.
  have hmixed : ∀ {a b : String}, isPlain a = true → ¬isPlain b = true →
      identifier a ≠ identifier b := fun {a b} ha hb heq => by
    have hhead := head?_of_plain ha
    rw [identifier, if_pos ha] at heq
    rw [heq, identifier_of_not_plain hb] at hhead
    exact hhead rfl
  intro a b h
  by_cases ha : isPlain a = true <;> by_cases hb : isPlain b = true
  · rwa [identifier, if_pos ha, identifier, if_pos hb] at h
  · exact absurd h (hmixed ha hb)
  · exact absurd h.symm (hmixed hb ha)
  · have hlist := congrArg String.toList h
    rw [identifier_of_not_plain ha, identifier_of_not_plain hb] at hlist
    exact String.toList_injective (mangle_injective (List.cons.inj hlist).2)

theorem identifier_not_reserved (name : String) : identifier name ∉ reserved := by
  have hhead : ∀ word ∈ reserved, word.toList.head? ≠ some '$' := by decide
  by_cases h : isPlain name = true
  · rw [identifier, if_pos h]
    simp only [isPlain, Bool.and_eq_true, Bool.not_eq_true', List.contains_eq_mem,
      decide_eq_false_iff_not] at h
    exact h.2
  · exact fun hmem => hhead _ hmem (by rw [identifier_of_not_plain h]; rfl)

/-- A name that can be declared: ASCII letters, digits, underscores and dollar signs, no digit in front,
and no word of the language or name that programs call. -/
structure IsFreeName (s : String) : Prop where
  nonempty : s ≠ ""
  chars : ∀ c ∈ s.toList, c.isAlpha = true ∨ c.isDigit = true ∨ c = '_' ∨ c = '$'
  head : ∀ c, s.toList.head? = some c → c.isDigit = false
  free : s ∉ reserved

theorem isFreeName_identifier (name : String) : IsFreeName (identifier name) := by
  have hword := isWord_identifier name
  unfold isWord at hword
  cases hlist : (identifier name).toList with
  | nil =>
    rw [hlist] at hword
    exact absurd hword Bool.false_ne_true
  | cons c cs =>
    rw [hlist] at hword
    obtain ⟨hstart, hrest⟩ := Bool.and_eq_true_iff.1 hword
    refine ⟨?_, ?_, ?_, identifier_not_reserved name⟩
    · intro hempty
      rw [hempty] at hlist
      exact absurd hlist (List.cons_ne_nil _ _).symm
    · rw [hlist, List.forall_mem_cons]
      refine ⟨?_, fun d hd => ?_⟩
      · simp only [isWordStart, Bool.or_eq_true, decide_eq_true_eq] at hstart
        tauto
      · have hpart := List.all_eq_true.1 hrest d hd
        simp only [isWordPart, isWordChar, Bool.or_eq_true, decide_eq_true_eq] at hpart
        tauto
    · intro d hd
      rw [hlist] at hd
      obtain rfl := Option.some.inj hd
      refine Bool.eq_false_iff.2 fun hdigit => ?_
      rw [isDigit_not_isWordStart hdigit] at hstart
      exact absurd hstart Bool.false_ne_true

end Blockwork.Target
