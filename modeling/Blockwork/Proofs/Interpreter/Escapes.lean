import Blockwork.Proofs.Context.Scopes

/-! Escapes implement structured breaks. From a context without a pending escape a run does to the
bindings what its structured reading does, and leaves the escape pending that the reading ends with. -/

namespace Blockwork

variable {α β : Type}

def Tracks (m : Run α) (r : Structured α) : Prop := ∀ c : Context Value, c.escape = .none →
  c.Frame (outcome m c).2 ∧ (outcome m c).2.escape = .none ∧
    outcome r c.scopes = ((outcome m c).1, (outcome m c).2.scopes)

/-- The reading gives what the run gives, seen together with the escape that the run leaves. A run
that fails leaves none. -/
def Ends (view : α → Escape → β) (m : Run α) (r : Structured β) : Prop :=
  ∀ c : Context Value, c.escape = .none →
    c.Frame (outcome m c).2 ∧ (∀ e, (outcome m c).1 = .error e → (outcome m c).2.escape = .none) ∧
      outcome r c.scopes =
        ((outcome m c).1.map (view · (outcome m c).2.escape), (outcome m c).2.scopes)

namespace Tracks

theorem pure (a : α) : Tracks (Pure.pure a) (Pure.pure a) := fun c hc => ⟨.refl c, hc, rfl⟩

theorem lift (x : Except EngineError α) : Tracks (liftM x) (liftM x) := by
  intro c hc
  rw [Run.outcome_lift]
  exact ⟨.refl c, hc, rfl⟩

theorem get (name : String) : Tracks (Run.get name) (Structured.get name) := by
  refine fun c hc => ⟨.refl c, hc, ?_⟩
  show (Except.ok ((c.scopes.get? name).getD .null), c.scopes) = _
  rw [Context.get?_scopes]
  rfl

theorem set (name : String) (v : Value) : Tracks (Run.set name v) (Structured.set name v) := by
  refine fun c hc => ⟨.set c name v, (Context.escape_set c name v).trans hc, ?_⟩
  show (Except.ok (), c.scopes.set name v) = (Except.ok (), (c.set name v).scopes)
  rw [Context.scopes_set]

theorem bind {m : Run α} {r : Structured α} {f : α → Run β} {g : α → Structured β}
    (h : Tracks m r) (hf : ∀ a, Tracks (f a) (g a)) : Tracks (m >>= f) (r >>= g) := by
  intro c hc
  obtain ⟨hframe, he, ho⟩ := h c hc
  rw [outcome_bind, outcome_bind, ho]
  generalize outcome m c = x at hframe he ⊢
  obtain ⟨e | a, c₁⟩ := x
  · exact ⟨hframe, he, rfl⟩
  · obtain ⟨hframe₁, he₁, ho₁⟩ := hf a c₁ he
    exact ⟨hframe.trans hframe₁, he₁, ho₁⟩

theorem ite {p : Prop} [Decidable p] {m m' : Run α} {r r' : Structured α} (h : Tracks m r)
    (h' : Tracks m' r') : Tracks (if p then m else m') (if p then r else r') := by
  split
  · exact h
  · exact h'

theorem iterate {σ : Type} {step : σ → Run (Option σ)} {step' : σ → Structured (Option σ)}
    (h : ∀ s, Tracks (step s) (step' s)) (limit : Nat) (s : σ) :
    Tracks (Run.iterate step limit s) (Structured.iterate step' limit s) := by
  induction limit generalizing s with
  | zero => exact fun c hc => ⟨.refl c, hc, rfl⟩
  | succ limit ih =>
    intro c hc
    obtain ⟨hframe, he, ho⟩ := h s c hc
    rw [Run.outcome_iterate_succ, Structured.iterate, outcome_bind, ho]
    generalize outcome (step s) c = x at hframe he ⊢
    obtain ⟨e | _ | s', c₁⟩ := x
    · exact ⟨hframe, he, rfl⟩
    · exact ⟨hframe, he, rfl⟩
    · obtain ⟨hframe₁, he₁, ho₁⟩ := ih s' c₁ he
      exact ⟨hframe.trans hframe₁, he₁, ho₁⟩

theorem of_assigns {m : Run α} (hm : m.Assigns) (hframe : m.Framed) :
    Tracks m (Structured.ofRun m) := by
  intro c hc
  obtain ⟨hr, hs, -⟩ := hm c.scopes.context c (Context.scopes_context _)
  obtain ⟨-, -, he⟩ := hm c c rfl
  refine ⟨hframe c, he.trans hc, ?_⟩
  show ((outcome m c.scopes.context).1, (outcome m c.scopes.context).2.scopes) = _
  rw [hr, hs]

theorem inLoop {m : Run α} {r : Structured α} (h : Tracks m r) :
    Tracks (Traversal.inLoop m) (Structured.inScope r) := by
  intro c hc
  obtain ⟨hframe, -, ho⟩ := h c.push rfl
  rw [Traversal.outcome_inLoop]
  refine ⟨.closeLoop hframe, hframe.escape_pop.trans hc, ?_⟩
  show ((outcome r c.push.scopes).1, (outcome r c.push.scopes).2.pop) = _
  rw [ho]
  exact Prod.ext rfl (Context.scopes_pop _).symm

end Tracks

theorem Tracks.of_ends {m : Run α} {r : Structured Escape} (h : Ends (fun _ e => e) m r)
    (hr : Gives (· = .none) r) (b : β) :
    Tracks (m >>= fun _ => Pure.pure b) (r >>= fun _ => Pure.pure b) := by
  intro c hc
  obtain ⟨hframe, he, ho⟩ := h c hc
  rw [outcome_bind, outcome_bind, ho]
  generalize outcome m c = x at hframe he ho ⊢
  obtain ⟨e | a, c₁⟩ := x
  · exact ⟨hframe, he e rfl, rfl⟩
  · exact ⟨hframe, hr _ _ _ ho, rfl⟩

namespace Ends

variable {γ : Type} {view : α → Escape → β} {m : Run α} {r : Structured β}

theorem pure (a : α) : Ends view (Pure.pure a) (Pure.pure (view a .none)) := by
  intro c hc
  refine ⟨.refl c, fun _ _ => hc, ?_⟩
  show (Except.ok (view a .none), c.scopes) = (Except.ok (view a c.escape), c.scopes)
  rw [hc]

theorem lift_bind {x : Except EngineError γ} {f : γ → Run α} {g : γ → Structured β}
    (h : ∀ a, x = .ok a → Ends view (f a) (g a)) : Ends view (liftM x >>= f) (liftM x >>= g) := by
  cases x with
  | error e => exact fun c hc => ⟨.refl c, fun _ _ => hc, rfl⟩
  | ok a => exact h a rfl

theorem of_tracks {r : Structured α} (h : Tracks m r) :
    Ends view m (r >>= fun a => Pure.pure (view a .none)) := by
  intro c hc
  obtain ⟨hframe, he, ho⟩ := h c hc
  rw [outcome_bind, ho, he]
  generalize outcome m c = x at hframe he ⊢
  obtain ⟨e | a, c₁⟩ := x
  · exact ⟨hframe, fun _ _ => rfl, rfl⟩
  · exact ⟨hframe, fun _ _ => rfl, rfl⟩

/-- What follows a run that left no escape decides how both end. -/
theorem bind_tracks {m : Run γ} {r : Structured γ} {f : γ → Run α} {g : γ → Structured β}
    (h : Tracks m r) (hf : ∀ a, Ends view (f a) (g a)) : Ends view (m >>= f) (r >>= g) := by
  intro c hc
  obtain ⟨hframe, he, ho⟩ := h c hc
  rw [outcome_bind, outcome_bind, ho]
  generalize outcome m c = x at hframe he ⊢
  obtain ⟨e | a, c₁⟩ := x
  · exact ⟨hframe, fun _ _ => he, rfl⟩
  · obtain ⟨hframe₁, he₁, ho₁⟩ := hf a c₁ he
    exact ⟨hframe.trans hframe₁, he₁, ho₁⟩

theorem giving {m : Run γ} {r : Structured Escape} (h : Ends (fun _ e => e) m r) (a : α) :
    Ends Prod.mk (m >>= fun _ => Pure.pure a) (r >>= fun e => Pure.pure (a, e)) := by
  intro c hc
  obtain ⟨hframe, he, ho⟩ := h c hc
  rw [outcome_bind, outcome_bind, ho]
  generalize outcome m c = x at hframe he ⊢
  obtain ⟨e | b, c₁⟩ := x
  · exact ⟨hframe, fun _ _ => he e rfl, rfl⟩
  · have hok : ∀ e, (Except.ok a : Except Halt α) = .error e → c₁.escape = .none :=
      fun _ h => nomatch h
    exact ⟨hframe, hok, rfl⟩

theorem ending {m : Run γ} {r : Structured (γ × Escape)} (h : Ends Prod.mk m r) (a : α) :
    Ends (fun _ e => e) (m >>= fun _ => Pure.pure a) (Prod.snd <$> r) := by
  intro c hc
  obtain ⟨hframe, he, ho⟩ := h c hc
  show _ ∧ _ ∧ outcome (r >>= fun x => Pure.pure x.2) c.scopes = _
  rw [outcome_bind, outcome_bind, ho]
  generalize outcome m c = x at hframe he ⊢
  obtain ⟨e | b, c₁⟩ := x
  · exact ⟨hframe, fun _ _ => he e rfl, rfl⟩
  · have hok : ∀ e, (Except.ok a : Except Halt α) = .error e → c₁.escape = .none :=
      fun _ h => nomatch h
    exact ⟨hframe, hok, rfl⟩

/-- What follows a run that may leave an escape does nothing while that is pending. -/
theorem bind_pending {m : Run γ} {r : Structured (γ × Escape)} {f : γ → Run α}
    {g : γ → Structured β} {k : γ → α} (h : Ends Prod.mk m r) (hf : ∀ a, Ends view (f a) (g a))
    (hpending : ∀ a c, c.escape ≠ .none → outcome (f a) c = (.ok (k a), c)) :
    Ends view (m >>= f)
      (r >>= fun x => if x.2 = .none then g x.1 else Pure.pure (view (k x.1) x.2)) := by
  intro c hc
  obtain ⟨hframe, he, ho⟩ := h c hc
  rw [outcome_bind, outcome_bind, ho]
  generalize outcome m c = x at hframe he ⊢
  obtain ⟨e | a, c₁⟩ := x
  · exact ⟨hframe, fun _ _ => he e rfl, rfl⟩
  by_cases hnone : c₁.escape = .none
  · obtain ⟨hframe₁, he₁, ho₁⟩ := hf a c₁ hnone
    refine ⟨hframe.trans hframe₁, he₁, ?_⟩
    show outcome (if c₁.escape = .none then g a else _) c₁.scopes = _
    rw [if_pos hnone]
    exact ho₁
  · have hok : ∀ e, (Except.ok (k a) : Except Halt α) = .error e → c₁.escape = .none :=
      fun _ h => nomatch h
    show c.Frame (outcome (f a) c₁).2 ∧
      (∀ e, (outcome (f a) c₁).1 = .error e → (outcome (f a) c₁).2.escape = .none) ∧
      outcome (if c₁.escape = .none then g a else _) c₁.scopes =
        ((outcome (f a) c₁).1.map (view · (outcome (f a) c₁).2.escape), (outcome (f a) c₁).2.scopes)
    rw [hpending a c₁ hnone, if_neg hnone]
    exact ⟨hframe, hok, rfl⟩

theorem ite {p : Prop} [Decidable p] {m' : Run α} {r' : Structured β} (h : Ends view m r)
    (h' : Ends view m' r') : Ends view (if p then m else m') (if p then r else r') := by
  split
  · exact h
  · exact h'

theorem inBranch (h : Ends view m r) : Ends view (Traversal.inBranch m) (Structured.inScope r) := by
  intro c hc
  obtain ⟨hframe, he, ho⟩ := h c.push rfl
  have hescape := hframe.escape_closeBranch hc
  rw [Traversal.outcome_inBranch]
  refine ⟨.closeBranch hframe, fun e hr => hescape.trans (he e hr), ?_⟩
  show ((outcome r c.push.scopes).1, (outcome r c.push.scopes).2.pop) = _
  rw [ho, hescape, Context.scopes_closeBranch]

end Ends

/-! ### Kinds -/

section Kinds

variable {p : Parts (Run Value)} {bodies : Bodies}
  (hv : ∀ e ∈ p.values, Run.Reads e.2.meaning)
  (hb : ∀ name, Ends (fun _ e => e) (p.execute name) (bodies.run name))

include hv in
theorem tracks_of_steps {m : Run α} (h : p.Steps .reading m) : Tracks m (Structured.ofRun m) := by
  have hm := Run.Reads.of_steps h hv
  exact .of_assigns hm.assigns hm.framed

include hb in
theorem tracks_round : Tracks p.executeRound bodies.round := by
  intro c hc
  obtain ⟨hframe, he, ho⟩ := hb "DO" c hc
  rw [Parts.executeRound, Bodies.round, outcome_bind, outcome_bind, ho]
  generalize outcome (p.execute "DO") c = x at hframe he ⊢
  obtain ⟨e | a, c₁⟩ := x
  · exact ⟨hframe, he e rfl, rfl⟩
  · refine ⟨hframe.trans (.setEscape c₁ .none), Context.escape_setEscape c₁ .none, ?_⟩
    show (Except.ok (c₁.escape != .breaking), c₁.scopes) =
      (Except.ok (c₁.escape != .breaking), (c₁.setEscape .none).scopes)
    rw [Context.scopes_setEscape]

include hv hb

theorem ends_arms (hasElse : Bool) (arms : List Nat) :
    Ends (fun _ e => e) (p.executeArms hasElse arms)
      (bodies.runArms p.withoutBodies hasElse arms) := by
  induction arms with
  | nil => exact .ite (hb "ELSE").inBranch (.of_tracks (.pure ()))
  | cons i rest ih =>
    refine .bind_tracks (tracks_of_steps hv (.evaluateCondition _)) fun decided => ?_
    exact .ite (hb _).inBranch ih

theorem ends_branch (alwaysElse : Bool) :
    Ends (fun _ e => e) (p.executeBranch alwaysElse)
      (bodies.runBranch p.withoutBodies alwaysElse) :=
  .bind_tracks (.lift _) fun _ => ends_arms hv hb _ _

theorem tracks_repeat (limit : Nat) (source : CountSource) :
    Tracks (p.executeRepeat limit source) (bodies.runRepeat p.withoutBodies limit source) := by
  have hcount : p.withoutBodies.repeatCount source = p.repeatCount source := by
    cases source <;> rfl
  rw [Bodies.runRepeat, hcount]
  refine .bind (tracks_of_steps hv (.repeatCount source)) fun times => .inLoop (.iterate ?_ limit _)
  exact fun count => .ite (.bind (tracks_round hb) fun _ => .ite (.pure _) (.pure _)) (.pure _)

theorem tracks_range (limit : Nat) :
    Tracks (p.executeRange limit) (bodies.runRange p.withoutBodies limit) := by
  refine .bind (.lift _) fun name => .bind (tracks_of_steps hv (.evaluateNumber _)) fun first => ?_
  refine .bind (tracks_of_steps hv (.evaluateNumber _)) fun last => ?_
  refine .bind (tracks_of_steps hv (.evaluateNumber _)) fun size => .inLoop ?_
  refine .bind (.set _ _) fun _ => .iterate (fun _ => ?_) limit ()
  refine .bind (.get name) fun _ => .bind (.lift _) fun current => .ite ?_ (.pure none)
  refine .bind (tracks_round hb) fun _ => .ite ?_ (.pure none)
  exact .bind (.get name) fun _ => .bind (.lift _) fun _ => .bind (.set _ _) fun _ => .pure _

omit hv in
theorem tracks_items (name : String) (items : List Value) :
    Tracks (p.executeItems name items) (bodies.runItems name items) := by
  induction items with
  | nil => exact .pure ()
  | cons item rest ih =>
    refine .bind (.set name item) fun _ => .bind (tracks_round hb) fun _ => .ite ih (.pure ())

theorem tracks_forEach : Tracks p.executeForEach (bodies.runForEach p.withoutBodies) :=
  .bind (.lift _) fun name => .bind (tracks_of_steps hv (.evaluate _)) fun _ =>
    .bind (.lift _) fun items => .inLoop (tracks_items hb name items)

theorem tracks_whileUntil (limit : Nat) {mode : LoopMode}
    (hquiet : mode = .repeatUntil → Gives (· = .none) (bodies.run "DO")) :
    Tracks (p.executeWhileUntil limit mode)
      (bodies.runWhileUntil p.withoutBodies limit mode) := by
  cases mode with
  | repeatWhile =>
    refine .inLoop (.iterate (fun _ => ?_) limit ())
    refine .bind (tracks_of_steps hv (.evaluateCondition _)) fun _ => .ite ?_ (.pure none)
    exact .bind (tracks_round hb) fun _ => .ite (.pure _) (.pure none)
  | repeatUntil =>
    refine .inLoop (.iterate (fun _ => ?_) limit ())
    refine .bind (tracks_of_steps hv (.evaluateCondition _)) fun _ => .ite (.pure none) ?_
    exact .of_ends (hb "DO") (hquiet rfl) (some ())

omit hv hb in
theorem ends_flow : Ends (fun _ e => e) p.executeFlow (liftM (p.option "FLOW" flowOptions)) := by
  unfold Parts.executeFlow
  cases p.option "FLOW" flowOptions with
  | error e => exact fun c hc => ⟨.refl c, fun _ _ => hc, rfl⟩
  | ok escape =>
    intro c hc
    have hok : ∀ e, (Except.ok () : Except Halt Unit) = .error e →
        (c.setEscape escape).escape = .none := fun _ h => nomatch h
    refine ⟨.setEscape c escape, hok, ?_⟩
    show (Except.ok escape, c.scopes) =
      (Except.ok (c.setEscape escape).escape, (c.setEscape escape).scopes)
    rw [Context.escape_setEscape, Context.scopes_setEscape]

omit hb in
theorem ends_plain {limit : Nat} {kind : Kind} (hr : kind.reach ≠ .steering)
    (hk : kind.evaluate limit p.withoutBodies = kind.evaluate limit p) :
    Ends Prod.mk (kind.evaluate limit p)
      (do return (← Structured.ofRun (kind.evaluate limit p.withoutBodies), .none)) := by
  have hsteps := kind.steps limit p.withoutBodies
  have hframed : (kind.evaluate limit p.withoutBodies).Framed :=
    .of_steps hsteps (fun e he => (hv e he).framed) fun e he => absurd he List.not_mem_nil
  rw [← hk]
  exact .of_tracks (.of_assigns (.of_steps hsteps hr hv) hframed)

theorem ends_kind (limit : Nat) {kind : Kind}
    (hquiet : kind = .whileUntil → p.fields.get? "MODE" = some "UNTIL" →
      Gives (· = .none) (bodies.run "DO")) :
    Ends Prod.mk (kind.evaluate limit p) (kind.structured limit p.withoutBodies bodies) := by
  cases kind with
  | branch alwaysElse => exact (ends_branch hv hb alwaysElse).giving Value.null
  | repeatTimes source => exact .bind_tracks (tracks_repeat hv hb limit source) fun _ => .pure _
  | whileUntil =>
    refine .lift_bind fun mode hmode => ?_
    refine .bind_tracks (tracks_whileUntil hv hb limit fun huntil => hquiet rfl ?_) fun _ => .pure _
    obtain ⟨text, htext, hlookup⟩ := Parts.option_eq_ok.1 hmode
    rw [huntil] at hlookup
    obtain rfl : text = "UNTIL" := by
      simpa [LoopMode.options] using mem_of_lookup hlookup
    exact htext
  | countRange => exact .bind_tracks (tracks_range hv hb limit) fun _ => .pure _
  | forEach => exact .bind_tracks (tracks_forEach hv hb) fun _ => .pure _
  | flow => exact ends_flow.giving Value.null
  | _ => exact ends_plain hv (by decide) rfl

end Kinds

end Blockwork
