import Blockwork.Proofs.Interpreter.Breaks

/-! What a run does to the escape that is pending in its scope. Only an escape statement, a branch and
what is plugged into a value slot can change it: a loop runs in a scope of its own. -/

namespace Blockwork

variable {α β : Type} {P : Escape → Prop}

def Run.KeepsEscape (P : Escape → Prop) (m : Run α) : Prop :=
  ∀ c : Context Value, P c.escape → P (outcome m c).2.escape

namespace Run.KeepsEscape

theorem isPreorder (P : Escape → Prop) :
    IsPreorder (Context Value) fun c c' => P c.escape → P c'.escape where
  refl _ := id
  trans _ _ _ h h' := h' ∘ h

theorem pure (a : α) : KeepsEscape P (Pure.pure a : Run α) := Keeps.pure (isPreorder P) a

theorem lift (x : Except EngineError α) : KeepsEscape P (liftM x : Run α) := by
  intro c hc
  rw [outcome_lift]
  exact hc

theorem bind {m : Run α} {f : α → Run β} (hm : KeepsEscape P m) (hf : ∀ a, KeepsEscape P (f a)) :
    KeepsEscape P (m >>= f) :=
  Keeps.bind (isPreorder P) hm hf

theorem liftThen {x : Except EngineError α} {f : α → Run β}
    (h : ∀ a, x = .ok a → KeepsEscape P (f a)) : KeepsEscape P (liftM x >>= f) := by
  cases x with
  | error e => exact fun _ hc => hc
  | ok a => exact h a rfl

theorem ite {p : Prop} [Decidable p] {m m' : Run α} (h : KeepsEscape P m) (h' : KeepsEscape P m') :
    KeepsEscape P (if p then m else m') := by
  split
  · exact h
  · exact h'

theorem of_steps {p : Parts (Run Value)} {r : Reach} {m : Run α} (h : p.Steps r m)
    (hr : r ≠ .steering) (hv : ∀ e ∈ p.values, KeepsEscape P e.2.meaning) : KeepsEscape P m := by
  induction h with
  | pure a => exact .pure a
  | fail h => exact fun _ hc => hc
  | bind _ _ hm hf => exact hm.bind hf
  | get name => exact fun _ hc => hc
  | value hmem => exact hv _ hmem
  | set name v _ =>
    intro c hc
    rw [outcome_set, Context.escape_set]
    exact hc
  | statement h | raise _ h | takeEscape h | inBranch h | inLoop h | iterate _ _ h =>
    exact absurd h hr

theorem inLoop {m : Run α} (h : m.Framed) : KeepsEscape P (Traversal.inLoop m) := by
  intro c hc
  rw [Traversal.outcome_inLoop, Context.closeLoop, (h c.push).escape_pop]
  exact hc

end Run.KeepsEscape

/-! ### Kinds -/

open Run

variable {limit : Nat} {p : Parts (Run Value)} {kind : Kind}

theorem keepsEscape_reading (hv : ∀ e ∈ p.values, KeepsEscape P e.2.meaning) {m : Run α}
    (h : p.Steps .reading m) : KeepsEscape P m := .of_steps h (by decide) hv

theorem keepsEscape_loop (hloop : kind.isLoop = true)
    (hv : kind ≠ .whileUntil → ∀ e ∈ p.values, KeepsEscape P e.2.meaning)
    (hframed : ∀ {α : Type} {m : Run α}, p.Steps .steering m → m.Framed) :
    KeepsEscape P (kind.evaluate limit p) := by
  have hround : p.Steps .steering p.executeRound := .executeRound rfl
  cases kind with
  | repeatTimes source =>
    refine KeepsEscape.bind ?_ fun _ => .pure _
    refine (keepsEscape_reading (hv nofun) (.repeatCount source)).bind fun times =>
      .inLoop (hframed ?_)
    exact .iterate limit _ rfl fun count =>
      .ite (hround.bind fun _ => .ite (.pure _) (.pure _)) (.pure _)
  | whileUntil =>
    -- the condition is read in the scope of the loop, so nothing is asked of its slot
    refine KeepsEscape.bind (.lift _) fun mode => .bind ?_ fun _ => .pure _
    cases mode with
    | repeatWhile =>
      refine .inLoop (hframed (.iterate limit _ rfl fun _ => ?_))
      exact (Parts.Steps.evaluateCondition _).bind fun _ =>
        .ite (hround.bind fun _ => .ite (.pure _) (.pure _)) (.pure _)
    | repeatUntil =>
      refine .inLoop (hframed (.iterate limit _ rfl fun _ => ?_))
      exact (Parts.Steps.evaluateCondition _).bind fun _ =>
        .ite (.pure _) ((Parts.Steps.execute rfl _).bind fun _ => .pure _)
  | countRange =>
    refine KeepsEscape.bind (.liftThen fun name hname => ?_) fun _ => .pure _
    have hset : ∀ v, p.Steps .steering (Run.set name v) := fun v => .set name v (by decide) hname
    refine (keepsEscape_reading (hv nofun) (.evaluateNumber _)).bind fun first => ?_
    refine (keepsEscape_reading (hv nofun) (.evaluateNumber _)).bind fun last => ?_
    refine (keepsEscape_reading (hv nofun) (.evaluateNumber _)).bind fun size =>
      .inLoop (hframed ?_)
    refine (hset _).bind fun _ => .iterate limit _ rfl fun _ => ?_
    refine (Parts.Steps.get name hname).bind fun _ => (Parts.Steps.lift _).bind fun _ => ?_
    refine .ite (hround.bind fun _ => .ite ?_ (.pure _)) (.pure _)
    refine (Parts.Steps.get name hname).bind fun _ => (Parts.Steps.lift _).bind fun _ => ?_
    exact (hset _).bind fun _ => .pure _
  | forEach =>
    refine KeepsEscape.bind (.liftThen fun name hname => ?_) fun _ => .pure _
    refine (keepsEscape_reading (hv nofun) (.evaluate _)).bind fun _ => .bind (.lift _) fun items => ?_
    exact .inLoop (hframed (.executeItems rfl hname items))
  | _ => exact absurd hloop Bool.false_ne_true

theorem keepsEscape_arms (hv : ∀ e ∈ p.values, KeepsEscape P e.2.meaning)
    (hbranch : ∀ name, KeepsEscape P (Traversal.inBranch (p.execute name))) (hasElse : Bool)
    (arms : List Nat) : KeepsEscape P (p.executeArms hasElse arms) := by
  induction arms with
  | nil => exact .ite (hbranch _) (.pure ())
  | cons i rest ih =>
    refine (keepsEscape_reading hv (.evaluateCondition _)).bind fun decided => ?_
    exact .ite (hbranch _) ih

theorem keepsEscape_kind (hv : kind ≠ .whileUntil → ∀ e ∈ p.values, KeepsEscape P e.2.meaning)
    (hframed : ∀ {α : Type} {m : Run α}, p.Steps .steering m → m.Framed)
    (hbranch : kind.isLoop = false → ∀ name, KeepsEscape P (Traversal.inBranch (p.execute name)))
    (hflow : kind = .flow → KeepsEscape P p.executeFlow) :
    KeepsEscape P (kind.evaluate limit p) := by
  by_cases hr : kind.reach = .steering
  · cases kind with
    | branch alwaysElse =>
      refine KeepsEscape.bind (.bind (.lift _) fun arms => ?_) fun _ => .pure _
      exact keepsEscape_arms (hv nofun) (hbranch rfl) _ _
    | flow => exact (hflow rfl).bind fun _ => .pure _
    | repeatTimes _ | whileUntil | countRange | forEach => exact keepsEscape_loop rfl hv hframed
    | _ => exact absurd hr (by decide)
  · refine .of_steps (kind.steps limit p) hr (hv ?_)
    rintro rfl
    exact hr rfl

/-! ### Blocks and chains -/

theorem keepsEscape_block {b : Block Kind}
    (hvalues : b.kind ≠ .whileUntil → ∀ s ∈ b.values, KeepsEscape P (evaluateChain limit s.chain))
    (hbranch : b.kind.isLoop = false → ∀ name,
      KeepsEscape P (Traversal.inBranch ((b.runParts limit).execute name)))
    (hflow : b.kind = .flow → KeepsEscape P (b.runParts limit).executeFlow) :
    KeepsEscape P (b.evaluate limit) := by
  rw [Block.evaluate_eq]
  refine keepsEscape_kind ?_ (b.framed_steps limit) hbranch hflow
  rw [Block.values_runParts, List.forall_mem_map]
  exact hvalues

theorem keepsEscape_cons {b : Block Kind} {rest : List (Block Kind)}
    (hb : KeepsEscape P (b.evaluate limit)) (hrest : KeepsEscape P (evaluateRest limit rest)) :
    KeepsEscape P (evaluateChain limit (b :: rest)) ∧
      KeepsEscape P (evaluateRest limit (b :: rest)) := by
  refine ⟨hb.bind fun v => hrest.bind fun _ => .pure v, ?_⟩
  exact Keeps.poll (KeepsEscape.isPreorder P) (hb.bind fun _ => hrest)

end Blockwork
