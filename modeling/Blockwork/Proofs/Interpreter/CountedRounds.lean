import Blockwork.Proofs.Number.Values
import Blockwork.Proofs.Context.Assignment
import Blockwork.Proofs.Interpreter.UntilLoops

/-! How often a loop that counts runs its body. The count is a double of the loop itself or a variable
that is read again in every round; both go through whole numbers that doubles add and compare exactly. -/

namespace Blockwork

open Run

/-! ### Evaluations of a body -/

namespace Run

/-- An evaluation succeeds, does not break the loop and keeps what it has to keep. -/
structure Passes (keeps : Context Value → Context Value → Prop) (body : Run Unit)
    (c : Context Value) : Prop where
  succeeds : (outcome body c).1 = .ok ()
  goesOn : (outcome body c).2.escape ≠ .breaking
  keeps : keeps c (outcome body c).2

/-- The contexts in which the evaluations of a body start. The escape of each one is taken, and the loop
prepares the next one. -/
def starts (body : Run Unit) (prepare : ℕ → Context Value → Context Value) (c : Context Value) :
    ℕ → Context Value
  | 0 => prepare 0 c
  | k + 1 => prepare (k + 1) ((outcome body (starts body prepare c k)).2.setEscape .none)

/-- What a loop gives that evaluates its body `count` times if all evaluations pass, and otherwise up to
the first one that does not. -/
structure Evaluates (keeps : Context Value → Context Value → Prop) (body : Run Unit)
    (start : ℕ → Context Value) (count : ℕ) (result : Except Halt Value × Context Value) : Prop where
  completed : (∀ i < count, body.Passes keeps (start i)) →
    result = (.ok .null, (start count).closeLoop)
  broken : ∀ k < count, (∀ i < k, body.Passes keeps (start i)) →
    (outcome body (start k)).1 = .ok () → (outcome body (start k)).2.escape = .breaking →
    result = (.ok .null, ((outcome body (start k)).2.setEscape .none).closeLoop)
  failed : ∀ k < count, (∀ i < k, body.Passes keeps (start i)) →
    ∀ e, (outcome body (start k)).1 = .error e →
    result = (.error e, (outcome body (start k)).2.closeLoop)

end Run

theorem outcome_inLoop_null (m : Run Unit) (c : Context Value) :
    outcome (do Traversal.inLoop m; return Value.null) c =
      ((outcome m c.push).1.map fun _ => .null, (outcome m c.push).2.closeLoop) := by
  rw [outcome_bind, Traversal.outcome_inLoop]
  cases (outcome m c.push).1 <;> rfl

theorem outcome_executeRound (p : Parts (Run Value)) (c : Context Value) :
    outcome p.executeRound c = match outcome (p.execute "DO") c with
      | (.ok _, c₁) => (.ok (c₁.escape != .breaking), c₁.setEscape .none)
      | (.error e, c₁) => (.error e, c₁) := by
  rw [Parts.executeRound, outcome_bind]
  obtain ⟨e | _, c₁⟩ := outcome (p.execute "DO") c <;> rfl

section

variable {σ : Type} {p : Parts (Run Value)} {keeps : Context Value → Context Value → Prop}
  {step next : σ → Run (Option σ)} {state : ℕ → σ} {start : ℕ → Context Value} {count limit : ℕ}

structure RoundsOf (p : Parts (Run Value)) (keeps : Context Value → Context Value → Prop)
    (step next : σ → Run (Option σ)) (state : ℕ → σ) (start : ℕ → Context Value) (count : ℕ) :
    Prop where
  round : ∀ k < count, (∀ i < k, (p.execute "DO").Passes keeps (start i)) →
    outcome (step (state k)) (start k) =
      outcome (do if ← p.executeRound then next (state k) else return none) (start k)
  next : ∀ k < count, (∀ i < k + 1, (p.execute "DO").Passes keeps (start i)) →
    outcome (next (state k)) ((outcome (p.execute "DO") (start k)).2.setEscape .none) =
      (.ok (some (state (k + 1))), start (k + 1))
  last : (∀ i < count, (p.execute "DO").Passes keeps (start i)) →
    outcome (step (state count)) (start count) = (.ok none, start count)

namespace RoundsOf

variable (h : RoundsOf p keeps step next state start count) {k : ℕ}
include h

theorem outcome_step (hk : k < count)
    (hpasses : ∀ i < k, (p.execute "DO").Passes keeps (start i)) :
    outcome (step (state k)) (start k) = match outcome (p.execute "DO") (start k) with
      | (.ok _, c) => if c.escape = .breaking then (.ok none, c.setEscape .none)
          else outcome (next (state k)) (c.setEscape .none)
      | (.error e, c) => (.error e, c) := by
  rw [h.round k hk hpasses, outcome_bind, outcome_executeRound]
  obtain ⟨e | _, c⟩ := outcome (p.execute "DO") (start k)
  · rfl
  · by_cases hbreak : c.escape = .breaking <;> simp [hbreak]

/-- Rounds that pass use up their part of the limit and lead to the next start. -/
theorem outcome_iterate (hk : k ≤ count)
    (hpasses : ∀ i < k, (p.execute "DO").Passes keeps (start i)) :
    outcome (Run.iterate step (k + limit) (state 0)) (start 0) =
      outcome (Run.iterate step limit (state k)) (start k) := by
  induction k generalizing limit with
  | zero => rw [Nat.zero_add]
  | succ k ih =>
    have hbefore : ∀ i < k, (p.execute "DO").Passes keeps (start i) :=
      fun i hi => hpasses i (Nat.lt_succ_of_lt hi)
    obtain ⟨hsucceeds, hgoesOn, -⟩ := hpasses k (Nat.lt_succ_self k)
    have hnext := h.next k hk hpasses
    rw [Nat.add_assoc, ih (Nat.le_of_succ_le hk) hbefore, Nat.add_comm 1, outcome_iterate_succ,
      h.outcome_step hk hbefore]
    generalize outcome (p.execute "DO") (start k) = x at hsucceeds hgoesOn hnext ⊢
    obtain ⟨e | _, c⟩ := x
    · exact absurd hsucceeds (by simp)
    · simp only [if_neg hgoesOn, hnext]

/-- A loop whose rounds count up to a number within the limit evaluates its body as often. -/
theorem evaluates (hlimit : count < limit) :
    Run.Evaluates keeps (p.execute "DO") start count
      ((outcome (Run.iterate step limit (state 0)) (start 0)).1.map fun _ => .null,
        (outcome (Run.iterate step limit (state 0)) (start 0)).2.closeLoop) := by
  have hround : ∀ k ≤ count, (∀ i < k, (p.execute "DO").Passes keeps (start i)) →
      ∃ rest, outcome (Run.iterate step limit (state 0)) (start 0) =
        outcome (Run.iterate step (rest + 1) (state k)) (start k) := by
    intro k hk hpasses
    refine ⟨limit - k - 1, ?_⟩
    rw [← h.outcome_iterate hk hpasses]
    congr 2
    omega
  refine ⟨fun hpasses => ?_, fun k hk hpasses hsucceeds hbreak => ?_, fun k hk hpasses e herror => ?_⟩
  · obtain ⟨rest, hrest⟩ := hround count le_rfl hpasses
    rw [hrest, outcome_iterate_succ, h.last hpasses]
    rfl
  · obtain ⟨rest, hrest⟩ := hround k hk.le hpasses
    rw [hrest, outcome_iterate_succ, h.outcome_step hk hpasses]
    generalize outcome (p.execute "DO") (start k) = x at hsucceeds hbreak ⊢
    obtain ⟨e | _, c⟩ := x
    · exact absurd hsucceeds (by simp)
    · simp only [if_pos hbreak]
      rfl
  · obtain ⟨rest, hrest⟩ := hround k hk.le hpasses
    rw [hrest, outcome_iterate_succ, h.outcome_step hk hpasses]
    generalize outcome (p.execute "DO") (start k) = x at herror ⊢
    obtain ⟨e' | _, c⟩ := x
    · rw [Except.error.inj herror]
      rfl
    · exact absurd herror (by simp)

end RoundsOf

end

/-! ### Whole numbers in steps -/

namespace Number

def progression (first step : Float) : ℕ → Float
  | 0 => first
  | k + 1 => progression first step k + step

theorem value?_progression {first step : Float} {m s : ℤ} {k : ℕ} (hfirst : value? first = some (m : ℚ))
    (hstep : value? step = some (s : ℚ)) (hfits : ∀ i ≤ k, |m + i * s| ≤ 2 ^ 53) :
    value? (progression first step k) = some ((m + k * s : ℤ) : ℚ) := by
  induction k with
  | zero => simpa [progression] using hfirst
  | succ k ih =>
    have hsum : m + k * s + s = m + (k + 1 : ℕ) * s := by
      push_cast
      ring
    have hlast := hfits (k + 1) le_rfl
    rw [← hsum] at hlast ⊢
    exact value?_add_int (ih fun i hi => hfits i (Nat.le_succ_of_le hi)) hstep hlast

/-- The step of a range from `m` to `n` by `d`, which leads from the start to the end. -/
def rangeStep (m n d : ℤ) : ℤ := if m ≤ n then |d| else -|d|

def rangeCount (m n d : ℤ) : ℕ := (n - m).natAbs / d.natAbs + 1

section Range

variable {m n d : ℤ} {k : ℕ} (hd : d ≠ 0)
include hd

theorem lt_rangeCount_iff : k < rangeCount m n d ↔ k * |d| ≤ |n - m| := by
  rw [rangeCount, Nat.lt_succ_iff, Nat.le_div_iff_mul_le (Int.natAbs_pos.2 hd), Int.abs_eq_natAbs,
    Int.abs_eq_natAbs]
  exact_mod_cast Iff.rfl

theorem within_range_iff : (if 0 ≤ rangeStep m n d then m + k * rangeStep m n d ≤ n
    else m + k * rangeStep m n d ≥ n) ↔ k < rangeCount m n d := by
  have hpos : 0 < |d| := abs_pos.2 hd
  rw [lt_rangeCount_iff hd, rangeStep]
  by_cases h : m ≤ n
  · rw [if_pos h, if_pos hpos.le, abs_of_nonneg (sub_nonneg.2 h)]
    constructor <;> intro <;> linarith
  · have hneg : ¬ 0 ≤ -|d| := by linarith
    have hless : n - m ≤ 0 := by linarith
    rw [if_neg h, if_neg hneg, abs_of_nonpos hless, mul_neg]
    constructor <;> intro <;> linarith

theorem abs_range_le (hm : |m| ≤ 2 ^ 50) (hn : |n| ≤ 2 ^ 50) (hd' : |d| ≤ 2 ^ 50)
    (hk : k ≤ rangeCount m n d) : |m + k * rangeStep m n d| ≤ 2 ^ 53 := by
  have hway : k * |d| ≤ |n - m| + |d| := by
    cases k with
    | zero => simpa using add_nonneg (abs_nonneg (n - m)) (abs_nonneg d)
    | succ k =>
      have hbefore := (lt_rangeCount_iff hd).1 hk
      push_cast
      linarith
  have hstep : |k * rangeStep m n d| = k * |d| := by
    rw [abs_mul, Nat.abs_cast, rangeStep]
    split <;> simp
  have hsize : |n - m| ≤ |n| + |m| := abs_sub n m
  have hsum := abs_add_le m (k * rangeStep m n d)
  rw [hstep] at hsum
  linarith

end Range

end Number

open Number

/-! ### Loops with a count of their own -/

section

variable {limit : ℕ} {b : Block Kind} {c c₀ : Context Value} {source : CountSource} {times : Float}
  {n : ℕ}

theorem outcome_repeatTimes (hkind : b.kind = .repeatTimes source)
    (htimes : outcome ((b.runParts limit).repeatCount source) c = (.ok times, c₀)) :
    outcome (b.evaluate limit) c = outcome (do
      Traversal.inLoop (Run.iterate (fun count => do
        if count < times then
          if ← (b.runParts limit).executeRound then return some (count + 1.0) else return none
        else return none) limit 0.0)
      return Value.null) c₀ := by
  rw [Block.evaluate_eq, hkind]
  show outcome (((b.runParts limit).repeatCount source >>= fun times =>
    Traversal.inLoop (Run.iterate _ limit 0.0)) >>= fun _ => pure Value.null) c = _
  rw [bind_assoc, outcome_bind, htimes]

theorem roundsOf_repeatTimes (p : Parts (Run Value)) (htimes : value? times = some (n : ℚ))
    (hn : n ≤ 2 ^ 53) (c : Context Value) :
    RoundsOf p (fun _ _ => True) (fun count => do
        if count < times then if ← p.executeRound then return some (count + 1.0) else return none
        else return none)
      (fun count => return some (count + 1.0)) (progression 0.0 1.0)
      ((p.execute "DO").starts (fun _ c => c) c) n := by
  have hcount : ∀ k ≤ n, value? (progression 0.0 1.0 k) = some (k : ℚ) := by
    intro k hk
    have hfits : ∀ i ≤ k, |(0 : ℤ) + i * 1| ≤ 2 ^ 53 := by
      intro i hi
      rw [zero_add, mul_one, Nat.abs_cast]
      exact_mod_cast (hi.trans hk).trans hn
    have hvalue := value?_progression (m := 0) (s := 1) (k := k) (by simpa using value?_zero)
      (by simpa using value?_one) hfits
    simpa using hvalue
  have hless : ∀ k ≤ n, progression 0.0 1.0 k < times ↔ k < n := fun k hk => by
    rw [lt_iff_of_value? (hcount k hk) htimes, Nat.cast_lt]
  refine ⟨fun k hk _ => ?_, fun k hk _ => rfl, fun _ => ?_⟩
  · simp only [if_pos ((hless k hk.le).2 hk)]
  · simp only [if_neg (mt (hless n le_rfl).1 (lt_irrefl n))]
    rfl

end

/-! ### Loops that count with a variable -/

def Block.range (limit : ℕ) (b : Block Kind) : Run (Float × Float × Float) := do
  let first ← (b.runParts limit).evaluateNumber "FROM"
  let last ← (b.runParts limit).evaluateNumber "TO"
  let size ← (b.runParts limit).evaluateNumber "BY"
  return (first, last, size)

def rangeNext (name : String) (step : Float) : Run (Option Unit) := do
  let current ← (← Run.get name).asNumber
  Run.set name (.number (current + step))
  return some ()

def rangeRound (p : Parts (Run Value)) (name : String) (last step : Float) : Run (Option Unit) := do
  let current ← (← Run.get name).asNumber
  if (if step ≥ 0.0 then current ≤ last else current ≥ last) then
    if ← p.executeRound then rangeNext name step else return none
  else return none

section

variable {limit : ℕ} {b : Block Kind} {c c₀ : Context Value} {name : String}
  {first last size : Float} {m n d : ℤ}

theorem outcome_countRange (hkind : b.kind = .countRange) (hname : b.fields.get? "VAR" = some name)
    (hrange : outcome (b.range limit) c = (.ok (first, last, size), c₀)) :
    outcome (b.evaluate limit) c = outcome (do
      Traversal.inLoop do
        Run.set name (.number first)
        Run.iterate (fun () => rangeRound (b.runParts limit) name last
          (if first > last then -size.abs else size.abs)) limit ()
      return Value.null) c₀ := by
  have hvariable : (b.runParts limit).variable = .ok name := Parts.field_eq_ok.2 hname
  obtain ⟨x, c₁, hfirst, hrange⟩ := bind_eq_ok.1 hrange
  obtain ⟨y, c₂, hlast, hrange⟩ := bind_eq_ok.1 hrange
  obtain ⟨z, c₃, hsize, hrange⟩ := bind_eq_ok.1 hrange
  obtain ⟨hvalues, rfl⟩ := pure_eq_ok.1 hrange
  obtain ⟨rfl, rfl, rfl⟩ : x = first ∧ y = last ∧ z = size := by simpa using hvalues
  rw [Block.evaluate_eq, hkind]
  show outcome ((b.runParts limit).executeRange limit >>= fun _ => pure Value.null) c = _
  simp only [Parts.executeRange, hvariable, outcome_bind, outcome_lift, Except.mapError, hfirst,
    hlast, hsize]
  rfl

/-- Where the body leaves the variable alone, it goes through the numbers of the range. -/
theorem Context.RootOnly.of_passes (hc : c.RootOnly name) (body : Run Unit) (value : ℕ → Float) {k : ℕ}
    (hpasses : ∀ i < k, body.Passes (Context.SameBinding name)
      (body.starts (fun i c => c.set name (.number (value i))) c i)) :
    (body.starts (fun i c => c.set name (.number (value i))) c k).RootOnly name ∧
      (body.starts (fun i c => c.set name (.number (value i))) c k).get? name =
        some (.number (value k)) ∧
      (body.starts (fun i c => c.set name (.number (value i))) c k).root.bindings.get? name =
        some (.number (value k)) := by
  induction k with
  | zero => exact ⟨hc.set _, hc.get?_set _, hc.get?_root_set _⟩
  | succ k ih =>
    obtain ⟨hbefore, -, -⟩ := ih fun i hi => hpasses i (Nat.lt_succ_of_lt hi)
    have hafter := hbefore.of_same
      ((hpasses k (Nat.lt_succ_self k)).keeps.trans (.setEscape _ .none))
    exact ⟨hafter.set _, hafter.get?_set _, hafter.get?_root_set _⟩

theorem outcome_rangeNext {x step : Float} (h : c.get? name = some (.number x)) :
    outcome (rangeNext name step) c = (.ok (some ()), c.set name (.number (x + step))) := by
  rw [rangeNext, outcome_bind, Run.outcome_get, h]
  rfl

theorem outcome_rangeRound (p : Parts (Run Value)) {x last step : Float}
    (h : c.get? name = some (.number x)) :
    outcome (rangeRound p name last step) c =
      if (if step ≥ 0.0 then x ≤ last else x ≥ last) then
        outcome (do if ← p.executeRound then rangeNext name step else return none) c
      else (.ok none, c) := by
  rw [rangeRound, outcome_bind, Run.outcome_get, h]
  exact apply_ite (outcome · c) _ _ _

theorem value?_rangeStep (hfirst : value? first = some (m : ℚ)) (hlast : value? last = some (n : ℚ))
    (hsize : value? size = some (d : ℚ)) :
    value? (if first > last then -size.abs else size.abs) = some (rangeStep m n d : ℚ) := by
  have habs : value? size.abs = some ((|d| : ℤ) : ℚ) := by
    rw [value?_abs hsize, Int.cast_abs]
  have hgreater : first > last ↔ ¬ m ≤ n := by
    rw [gt_iff_of_value? hfirst hlast, not_le]
    exact Int.cast_lt
  rw [rangeStep]
  by_cases h : m ≤ n
  · rw [if_neg fun hgt => hgreater.1 hgt h, if_pos h]
    exact habs
  · rw [if_pos (hgreater.2 h), if_neg h, value?_neg habs, Int.cast_neg]

theorem roundsOf_countRange (p : Parts (Run Value)) {step : Float} (hd : d ≠ 0)
    (hlast : value? last = some (n : ℚ)) (hstep : value? step = some (rangeStep m n d : ℚ))
    (hvalue : ∀ k ≤ rangeCount m n d,
      value? (progression first step k) = some ((m + k * rangeStep m n d : ℤ) : ℚ))
    (hc : c.RootOnly name) :
    RoundsOf p (Context.SameBinding name) (fun () => rangeRound p name last step)
      (fun () => rangeNext name step) (fun _ => ())
      ((p.execute "DO").starts (fun k c => c.set name (.number (progression first step k))) c)
      (rangeCount m n d) := by
  -- the condition holds on the doubles as on the whole numbers: for the rounds and no longer
  have hwithin : ∀ k ≤ rangeCount m n d,
      (if step ≥ 0.0 then progression first step k ≤ last else progression first step k ≥ last) ↔
        k < rangeCount m n d := by
    intro k hk
    have hsign : step ≥ 0.0 ↔ 0 ≤ rangeStep m n d := by
      rw [ge_iff_of_value? hstep value?_zero]
      exact_mod_cast Iff.rfl
    have hle : progression first step k ≤ last ↔ m + k * rangeStep m n d ≤ n := by
      rw [le_iff_of_value? (hvalue k hk) hlast]
      exact Int.cast_le
    have hge : progression first step k ≥ last ↔ m + k * rangeStep m n d ≥ n := by
      rw [ge_iff_of_value? (hvalue k hk) hlast]
      exact Int.cast_le
    rw [← within_range_iff hd]
    simp only [hsign, hle, hge]
  refine ⟨fun k hk hpasses => ?_, fun k hk hpasses => ?_, fun hpasses => ?_⟩
  · obtain ⟨-, hget, -⟩ := hc.of_passes _ (progression first step) hpasses
    rw [outcome_rangeRound p hget, if_pos ((hwithin k hk.le).2 hk)]
  · obtain ⟨-, hget, -⟩ := hc.of_passes _ (progression first step) fun i hi =>
      hpasses i (Nat.lt_succ_of_lt hi)
    have hsame := (hpasses k (Nat.lt_succ_self k)).keeps.trans (.setEscape _ .none)
    exact outcome_rangeNext (hsame.get?.trans hget)
  · obtain ⟨-, hget, -⟩ := hc.of_passes _ (progression first step) hpasses
    rw [outcome_rangeRound p hget, if_neg (mt (hwithin _ le_rfl).1 (lt_irrefl _))]

end

/-- Loops that count evaluate their bodies as often as they have to, and no more than up to the first
evaluation that fails or leaves a break pending. A loop with a count of its own has one round for each
unit of a whole number. A loop with a variable has one for each number from the start to the end by the
magnitude of the step: if the variable belongs to the root and no evaluation assigns it, it has these
numbers one after the other, and in the end the one after the last. -/
theorem counting_loops_evaluate_bodies (limit : ℕ) (b : Block Kind) (c c₀ : Context Value) :
    let body := runBody limit b.loopBody
    (∀ source times (n : ℕ), b.kind = .repeatTimes source →
      outcome ((b.runParts limit).repeatCount source) c = (.ok times, c₀) →
      value? times = some (n : ℚ) → n ≤ 2 ^ 53 → n < limit →
      body.Evaluates (fun _ _ => True) (body.starts (fun _ c => c) c₀.push) n
        (outcome (b.evaluate limit) c)) ∧
    ∀ name first last size (m n d : ℤ), b.kind = .countRange → b.fields.get? "VAR" = some name →
      outcome (b.range limit) c = (.ok (first, last, size), c₀) →
      value? first = some (m : ℚ) → value? last = some (n : ℚ) → value? size = some (d : ℚ) →
      |m| ≤ 2 ^ 50 → |n| ≤ 2 ^ 50 → |d| ≤ 2 ^ 50 → d ≠ 0 → name ∈ c₀.root.bindings.names →
      rangeCount m n d < limit →
      ∃ value : ℕ → Float,
        (∀ k ≤ rangeCount m n d, value? (value k) = some ((m + k * rangeStep m n d : ℤ) : ℚ)) ∧
        let start := body.starts (fun k c => c.set name (.number (value k))) c₀.push
        body.Evaluates (Context.SameBinding name) start (rangeCount m n d)
          (outcome (b.evaluate limit) c) ∧
        ∀ k ≤ rangeCount m n d, (∀ i < k, body.Passes (Context.SameBinding name) (start i)) →
          (start k).get? name = some (.number (value k)) ∧
            (start k).closeLoop.root.bindings.get? name = some (.number (value k)) := by
  intro body
  have hbody : (b.runParts limit).execute "DO" = body := execute_loopBody limit b
  constructor
  · intro source times n hkind htimes hvalue hn hlimit
    rw [outcome_repeatTimes hkind htimes, outcome_inLoop_null, ← hbody]
    exact (roundsOf_repeatTimes _ hvalue hn _).evaluates hlimit
  · intro name first last size m n d hkind hname hrange hfirst hlast hsize hm hn hd' hd hroot hlimit
    have hstep := value?_rangeStep hfirst hlast hsize
    have hvalue : ∀ k ≤ rangeCount m n d, value? (progression first
        (if first > last then -size.abs else size.abs) k) = some ((m + k * rangeStep m n d : ℤ) : ℚ) :=
      fun k hk => value?_progression hfirst hstep fun i hi => abs_range_le hd hm hn hd' (hi.trans hk)
    have hentry : c₀.push.RootOnly name := .push hroot
    refine ⟨_, hvalue, ?_, fun k hk hpasses => ?_⟩
    · rw [outcome_countRange hkind hname hrange, outcome_inLoop_null, ← hbody]
      exact (roundsOf_countRange _ hd hlast hstep hvalue hentry).evaluates hlimit
    · obtain ⟨-, hget, hfinal⟩ := hentry.of_passes _ _ hpasses
      exact ⟨hget, hfinal⟩

def thrice : Block Kind :=
  let letter : Block Kind := ⟨.text, "text", "t", [("TEXT", "a")], [], [], [], []⟩
  let append : Block Kind :=
    ⟨.append, "text_append", "a", [("VAR", "x")], [⟨"TEXT", [letter]⟩], [], [], []⟩
  let escape : Block Kind :=
    ⟨.flow, "controls_flow_statements", "f", [("FLOW", "CONTINUE")], [], [], [], []⟩
  ⟨.repeatTimes .field, "controls_repeat", "r", [("TIMES", "3")], [], [⟨"DO", [append, escape]⟩], [],
    []⟩

def numberSocket (name text : String) : Socket Kind :=
  ⟨name, [⟨.number, "math_number", "n", [("NUM", text)], [], [], [], []⟩]⟩

/-- A loop with a variable that is ten, six and two, and minus two after its rounds. -/
def countdown : Block Kind :=
  let item : Block Kind := ⟨.get, "variables_get", "g", [("VAR", "i")], [], [], [], []⟩
  let append : Block Kind :=
    ⟨.append, "text_append", "a", [("VAR", "x")], [⟨"TEXT", [item]⟩], [], [], []⟩
  ⟨.countRange, "controls_for", "r", [("VAR", "i")],
    [numberSocket "FROM" "10", numberSocket "TO" "1", numberSocket "BY" "4"], [⟨"DO", [append]⟩], [],
    []⟩

theorem exists_readNumber (text : String) (b : Binary)
    (h : (readNumber? text).bind (fun l => Binary.ofFloat? l.value) = some b) :
    ∃ l, readNumber text = .ok l ∧ value? l.value = some b.signed := by
  obtain ⟨l, hread, hvalue⟩ := Option.bind_eq_some_iff.1 h
  exact ⟨l, by rw [readNumber, hread], congrArg (Option.map Binary.signed) hvalue⟩

theorem outcome_number {limit : ℕ} {p : Parts (Run Value)} {text : String} {l : Literal}
    (hfield : p.field "NUM" = .ok text) (hread : readNumber text = .ok l) (c : Context Value) :
    outcome (Kind.evaluate limit p .number) c = (.ok (.number l.value), c) := by
  rw [Kind.evaluate, hfield]
  refine bind_eq_ok.2 ⟨text, c, rfl, ?_⟩
  rw [hread]
  rfl

theorem outcome_numberSocket {limit : ℕ} {p : Parts (Run Value)} {name text : String} {l : Literal}
    (hslot : p.values.lookup name = some ⟨true, evaluateChain limit (numberSocket name text).chain⟩)
    (hread : readNumber text = .ok l) (c : Context Value) :
    outcome (p.evaluateNumber name) c = (.ok l.value, c) := by
  have hslot : outcome (p.evaluate name) c = (.ok (.number l.value), c) := by
    rw [Parts.evaluate, Parts.value, hslot]
    refine bind_eq_ok.2 ⟨_, c, rfl, bind_eq_ok.2 ⟨_, c, ?_, rfl⟩⟩
    rw [Block.evaluate_eq]
    exact outcome_number (Parts.field_eq_ok.2 (by simp [Block.runParts, Entries.get?])) hread c
  exact bind_eq_ok.2 ⟨_, c, hslot, rfl⟩

theorem exists_range_countdown (c : Context Value) : ∃ first last size,
    outcome (countdown.range 4) c = (.ok (first, last, size), c) ∧ value? first = some ((10 : ℤ) : ℚ) ∧
      value? last = some ((1 : ℤ) : ℚ) ∧ value? size = some ((4 : ℤ) : ℚ) := by
  obtain ⟨x, hreadFirst, hfirst⟩ := exists_readNumber "10" ⟨false, 5 * 2 ^ 50, -49⟩ (by decide +kernel)
  obtain ⟨y, hreadLast, hlast⟩ := exists_readNumber "1" ⟨false, 2 ^ 52, -52⟩ (by decide +kernel)
  obtain ⟨z, hreadSize, hsize⟩ := exists_readNumber "4" ⟨false, 2 ^ 52, -50⟩ (by decide +kernel)
  refine ⟨x.value, y.value, z.value, ?_, ?_, ?_, ?_⟩
  · refine bind_eq_ok.2 ⟨_, c, outcome_numberSocket rfl hreadFirst c, ?_⟩
    refine bind_eq_ok.2 ⟨_, c, outcome_numberSocket rfl hreadLast c, ?_⟩
    exact bind_eq_ok.2 ⟨_, c, outcome_numberSocket rfl hreadSize c, rfl⟩
  · rw [hfirst]
    norm_num [Binary.signed, Binary.value]
  · rw [hlast]
    norm_num [Binary.signed, Binary.value]
  · rw [hsize]
    norm_num [Binary.signed, Binary.value]

theorem passes_countdown {c : Context Value} (hc : c.escape = .none) (value : ℕ → Float) (k : ℕ) :
    let body := runBody 4 countdown.loopBody
    body.Passes (Context.SameBinding "i")
      (body.starts (fun k c => c.set "i" (.number (value k))) c k) := by
  intro body
  have hspares : Block.AllOf (Block.LeavesAlone "i") countdown.loopBody := by decide
  refine ⟨rfl, ?_, Run.Spares.bind (spares_evaluateChain 4 hspares).1 (fun _ => .pure ()) _⟩
  have hquiet : (outcome body (body.starts (fun k c => c.set "i" (.number (value k))) c k)).2.escape =
      .none := by
    refine (Context.escape_set ..).trans ?_
    cases k with
    | zero => exact (Context.escape_set ..).trans hc
    | succ k => exact (Context.escape_set ..).trans (Context.escape_setEscape ..)
  rw [hquiet]
  decide

theorem thrice_and_countdown_evaluate_bodies :
    let c : Context Value := .ofBindings [("i", .null), ("x", .null)]
    let body := runBody 4 countdown.loopBody
    (∃ times, outcome ((thrice.runParts 4).repeatCount .field) c = (.ok times, c) ∧
      value? times = some ((3 : ℕ) : ℚ) ∧
      outcome (thrice.evaluate 4) c = (.ok .null, .ofBindings [("i", .null), ("x", .text "aaa")])) ∧
    ∃ first last size, outcome (countdown.range 4) c = (.ok (first, last, size), c) ∧
      value? first = some ((10 : ℤ) : ℚ) ∧ value? last = some ((1 : ℤ) : ℚ) ∧
      value? size = some ((4 : ℤ) : ℚ) ∧ rangeCount 10 1 4 = 3 ∧ ∃ value : ℕ → Float,
        (∀ k ≤ 3, value? (value k) = some ((10 + k * rangeStep 10 1 4 : ℤ) : ℚ)) ∧
        let start := body.starts (fun k c => c.set "i" (.number (value k))) c.push
        (∀ k ≤ 3, (start k).get? "i" = some (.number (value k))) ∧
          outcome (countdown.evaluate 4) c = (.ok .null, (start 3).closeLoop) := by
  intro c body
  constructor
  · obtain ⟨l, hread, hvalue⟩ := exists_readNumber "3" ⟨false, 3 * 2 ^ 51, -51⟩
      (by decide +kernel)
    have htimes : outcome ((thrice.runParts 4).repeatCount .field) c = (.ok l.value, c) := by
      show outcome ((liftM (readNumber "3") : Run Literal) >>= fun l => pure l.value) c = _
      rw [hread]
      rfl
    have hthree : value? l.value = some ((3 : ℕ) : ℚ) := by
      rw [hvalue]
      norm_num [Binary.signed, Binary.value]
    have hloop := (counting_loops_evaluate_bodies 4 thrice c c).1 .field l.value 3 rfl htimes hthree
      (by decide) (by decide)
    have hend : ((runBody 4 thrice.loopBody).starts (fun _ c => c) c.push 3).closeLoop =
        .ofBindings [("i", .null), ("x", .text "aaa")] := by cbv
    refine ⟨l.value, htimes, hthree, hend ▸ hloop.completed fun i hi => ?_⟩
    interval_cases i <;> exact ⟨by cbv, by cbv; decide, trivial⟩
  · obtain ⟨first, last, size, hrange, hfirst, hlast, hsize⟩ := exists_range_countdown c
    obtain ⟨value, hvalue, hloop, hvariable⟩ := (counting_loops_evaluate_bodies 4 countdown c c).2
      "i" first last size 10 1 4 rfl rfl hrange hfirst hlast hsize (by decide) (by decide) (by decide)
      (by decide) (by decide) (by decide)
    have hpasses := passes_countdown (rfl : c.push.escape = .none) value
    exact ⟨_, _, _, hrange, hfirst, hlast, hsize, rfl, value, hvalue,
      fun k hk => (hvariable k hk fun i _ => hpasses i).1, hloop.completed fun i _ => hpasses i⟩

end Blockwork
