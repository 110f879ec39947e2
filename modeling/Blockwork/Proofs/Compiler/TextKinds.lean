import Blockwork.Proofs.Compiler.ValueKinds

/-! The kinds that compute texts and lists. A text of several parts is the sum of those that are
there. -/

namespace Blockwork

open Target

variable {names : List String} {c : Context Value} {limit : Nat} {b : Block Kind}

inductive Joins (names : List String) (s : Scopes Value) : List String → List Expr → Prop where
  | nil : Joins names s [] []
  | skip {ts : List String} {es : List Expr} : Joins names s ts es → Joins names s ("" :: ts) es
  | cons {t : String} {e : Expr} {ts : List String} {es : List Expr} :
    Denotes names s e (.text t) → Joins names s ts es → Joins names s (t :: ts) (e :: es)

namespace Joins

variable {s : Scopes Value} {ts : List String} {es : List Expr}

theorem denotes_foldl (h : Joins names s ts es) {t : String} {e : Expr}
    (he : Denotes names s e (.text t)) :
    Denotes names s (es.foldl (.binary .add) e) (.text (t ++ String.join ts)) := by
  induction h generalizing t e with
  | nil =>
    rw [String.join_nil, String.append_empty]
    exact he
  | skip _ ih =>
    rw [String.join_cons, String.empty_append]
    exact ih he
  | cons hnext _ ih =>
    rw [String.join_cons, ← String.append_assoc]
    exact ih (he.binary hnext rfl)

theorem denotes (h : Joins names s ts es) :
    Denotes names s (joinCode es) (.text (String.join ts)) := by
  induction h with
  | nil => exact fun _ _ => rfl
  | skip _ ih =>
    rw [String.join_cons, String.empty_append]
    exact ih
  | cons he hrest _ =>
    rw [String.join_cons]
    exact hrest.denotes_foldl he

end Joins

section

variable (hslots : ∀ s ∈ b.values,
  Mirrors c (Computes names c) (evaluateChain limit s.chain) (compileExpression s.chain))

include hslots

/-! ### Texts -/

theorem mirrors_joined (slots : List Nat) :
    Mirrors c (Joins names c.scopes)
      (slots.mapM fun i => (b.runParts limit).joinedText (numbered "ADD" i))
      (b.codeParts.compileFilled (slots.map (numbered "ADD"))) := by
  induction slots with
  | nil => exact .pure .nil
  | cons i rest ih =>
    rw [List.mapM_cons, Parts.joinedText, bind_assoc, List.map_cons, Parts.compileFilled]
    refine (mirrors_plug fun s hs _ => hslots s hs).bind fun plug plug' h => ?_
    obtain ⟨filled, meaning⟩ := plug
    obtain ⟨filled', meaning'⟩ := plug'
    obtain ⟨hfilled, hmeaning⟩ := h
    obtain rfl : filled = filled' := hfilled
    cases filled with
    | true =>
      show Mirrors c _ ((meaning >>= fun v => pure v.display) >>= _) (meaning'.expression >>= _)
      rw [bind_assoc]
      refine hmeaning.bind fun v e he => ?_
      rw [pure_bind]
      refine ih.map fun ts es hes => .cons ?_ hes
      rw [← Value.display_target]
      exact Denotes.toText he
    | false =>
      show Mirrors c _ (pure "" >>= _) (b.codeParts.compileFilled _)
      rw [pure_bind, ← bind_pure (b.codeParts.compileFilled _)]
      exact ih.map fun ts es hes => .skip hes

theorem mirrors_join :
    Mirrors c (Code.Denotes names c.scopes) (Kind.join.evaluate limit (b.runParts limit))
      (Kind.join.compile b.codeParts) :=
  .lift fun _ _ => (mirrors_joined hslots _).map fun _ _ h => h.denotes

theorem mirrors_textLength :
    Mirrors c (Code.Denotes names c.scopes) (Kind.textLength.evaluate limit (b.runParts limit))
      (Kind.textLength.compile b.codeParts) :=
  (mirrors_text hslots "VALUE").map fun _ _ h => h.member rfl

theorem mirrors_textIsEmpty :
    Mirrors c (Code.Denotes names c.scopes) (Kind.textIsEmpty.evaluate limit (b.runParts limit))
      (Kind.textIsEmpty.compile b.codeParts) := by
  refine (mirrors_text hslots "VALUE").map fun t e h => ?_
  show Denotes names c.scopes (hasNoLength e) (.boolean t.isEmpty)
  rw [Text.isEmpty_eq]
  exact h.hasNoLength rfl

theorem mirrors_changeCase :
    Mirrors c (Code.Denotes names c.scopes) (Kind.changeCase.evaluate limit (b.runParts limit))
      (Kind.changeCase.compile b.codeParts) := by
  refine .lift fun letterCase _ => (mirrors_text hslots "TEXT").map fun t e h => ?_
  cases letterCase with
  | title => exact .call (.one h) rfl
  | _ => exact h.method rfl

theorem mirrors_trim :
    Mirrors c (Code.Denotes names c.scopes) (Kind.trim.evaluate limit (b.runParts limit))
      (Kind.trim.compile b.codeParts) := by
  refine .lift fun side _ => (mirrors_text hslots "TEXT").map fun t e h => ?_
  cases side <;> exact h.method rfl

/-! ### Lists -/

theorem mirrors_items (slots : List Nat) :
    Mirrors c (fun items es => DenotesAll names c.scopes es (Value.targets items))
      ((b.runParts limit).evaluateItems (slots.map (numbered "ADD")))
      (slots.mapM fun i => b.codeParts.compile (numbered "ADD" i)) := by
  induction slots with
  | nil => exact .pure .nil
  | cons i rest ih =>
    rw [Parts.evaluateItems, List.map_cons, List.mapM_cons, List.mapM_cons]
    exact (mirrors_evaluate hslots _).bind fun v e he => ih.map fun items es hes => .cons he hes

theorem mirrors_createList :
    Mirrors c (Code.Denotes names c.scopes) (Kind.createList.evaluate limit (b.runParts limit))
      (Kind.createList.compile b.codeParts) :=
  .lift fun _ _ => (mirrors_items hslots _).map fun _ _ h => .list h

omit hslots in
theorem copies?_eq {count : Float} (hpositive : ¬ count < 0) {f : Number.Binary}
    (hf : Number.Binary.ofFloat? count = some f) : copies? count = some f.whole := by
  unfold copies?
  rw [hf]
  show some (if f.negative then 0 else f.whole) = _
  rw [Number.Binary.ofFloat?_eq] at hf
  rw [Number.lt_zero_iff, not_or, not_exists] at hpositive
  cases hx : count.toModel.unpack with
  | infinity s =>
    rw [hx] at hf
    exact absurd hf (by simp [Number.Binary.ofUnpacked?])
  | notANumber =>
    rw [hx] at hf
    exact absurd hf (by simp [Number.Binary.ofUnpacked?])
  | zero s =>
    rw [hx] at hf
    obtain rfl := Option.some.inj hf
    simp [Number.Binary.whole]
  | finite s m e hm =>
    rw [hx] at hf
    obtain rfl := Option.some.inj hf
    cases s with
    | positive => rfl
    | negative => exact absurd ⟨e, hm, hx⟩ (hpositive.2 m)

omit hslots in
theorem repeatValue_target {item v : Value} {count : Float} (h : repeatValue item count = .ok v) :
    callHelper? "listsRepeat" [item.target, .number count] = some v.target := by
  unfold repeatValue at h
  split at h
  · exact absurd h (by simp)
  rename_i hcount
  rw [Bool.or_eq_true, not_or, decide_eq_true_eq, Bool.not_eq_true', Bool.not_eq_false] at hcount
  obtain ⟨hpositive, hwhole⟩ := hcount
  split at h
  · exact absurd h (by simp)
  obtain rfl := Except.ok.inj h
  obtain ⟨f, hf, -⟩ := (Option.any_eq_true _ _).1 hwhole
  show (copies? count).map (fun n => Target.Value.list (List.replicate n item.target)) = _
  rw [copies?_eq hpositive hf, hf, Value.target, Value.targets_eq_map, List.map_replicate]
  rfl

theorem mirrors_repeatItem :
    Mirrors c (Code.Denotes names c.scopes) (Kind.repeatItem.evaluate limit (b.runParts limit))
      (Kind.repeatItem.compile b.codeParts) :=
  (mirrors_evaluate hslots "ITEM").bind fun _ _ hl => (mirrors_number hslots "NUM").bind
    fun _ _ hr => .checked fun _ h => .call (.two hl hr) (repeatValue_target h)

omit hslots in
theorem member?_length (items : List Value) : member? "length" (.list (Value.targets items)) =
    some (.number (Float.ofNat items.length)) := by
  rw [Value.targets_eq_map, ← List.length_map]
  rfl

theorem mirrors_listLength :
    Mirrors c (Code.Denotes names c.scopes) (Kind.listLength.evaluate limit (b.runParts limit))
      (Kind.listLength.compile b.codeParts) := by
  refine (mirrors_evaluate hslots "VALUE").bind fun v e he => .check fun items hitems => .pure ?_
  obtain rfl := Value.asList_eq_ok.1 hitems
  exact he.member (member?_length items)

theorem mirrors_listIsEmpty :
    Mirrors c (Code.Denotes names c.scopes) (Kind.listIsEmpty.evaluate limit (b.runParts limit))
      (Kind.listIsEmpty.compile b.codeParts) := by
  refine (mirrors_evaluate hslots "VALUE").bind fun v e he => .check fun items hitems => .pure ?_
  obtain rfl := Value.asList_eq_ok.1 hitems
  have hempty : items.isEmpty = decide (items.length = 0) := by
    cases items <;> rfl
  show Denotes names c.scopes (hasNoLength e) (.boolean items.isEmpty)
  rw [hempty]
  exact Denotes.hasNoLength he (member?_length items)

end

end Blockwork
