import Blockwork.Proofs.Compiler.CountingLoops

/-! Loops over a range. The start, the end and the step are computed before the loop and stay as they
are; the variable itself may be changed by the rounds. -/

namespace Blockwork

open Target Structured
open Parts (counterName)

variable {names : List String} {limit : Nat}

def rangeStart (name : String) (fromCode toCode byCode : Expr) : List Stmt :=
  let first := name ++ "_start"
  let last := name ++ "_end"
  let step := name ++ "_inc"
  [.expr (.assign first fromCode), .expr (.assign last toCode),
    .expr (.assign step (.call "Math.abs" [byCode])),
    .branch (.binary .greater (.variable first) (.variable last))
      [.expr (.assign step (.unary .negate (.variable step)))] []]

def rangeCondition (name : String) : Expr :=
  .conditional (.binary .greaterOrEqual (.variable (name ++ "_inc")) (.num 0))
    (.binary .lessOrEqual (.variable name) (.variable (name ++ "_end")))
    (.binary .greaterOrEqual (.variable name) (.variable (name ++ "_end")))

def rangeUpdate (name : String) : Expr :=
  .assign name (.binary .add (.variable name) (.variable (name ++ "_inc")))

structure HasRange (name : String) (first last step : Float) (σ : Store) : Prop where
  first : σ.get? (name ++ "_start") = some (.number first)
  last : σ.get? (name ++ "_end") = some (.number last)
  step : σ.get? (name ++ "_inc") = some (.number step)

section

variable {name : String} {first last step : Float}

theorem HasRange.of_keeps {free : String → Prop} {σ σ' : Store}
    (h : HasRange name first last step σ) (hkeeps : Keeps free σ σ')
    (hfree : ∀ temporary ∈ rangeNames name, free temporary) : HasRange name first last step σ' :=
  ⟨(hkeeps _ (hfree _ (by simp [rangeNames]))).trans h.first,
    (hkeeps _ (hfree _ (by simp [rangeNames]))).trans h.last,
    (hkeeps _ (hfree _ (by simp [rangeNames]))).trans h.step⟩

theorem start_ne_end (name : String) : name ++ "_start" ≠ name ++ "_end" :=
  append_ne _ _ (x := 't') (y := 'd') rfl rfl (by decide)

theorem start_ne_inc (name : String) : name ++ "_start" ≠ name ++ "_inc" :=
  append_ne _ _ (x := 't') (y := 'c') rfl rfl (by decide)

theorem end_ne_inc (name : String) : name ++ "_end" ≠ name ++ "_inc" :=
  append_ne _ _ (x := 'd') (y := 'c') rfl rfl (by decide)

theorem HasRange.of_put {σ : Store} (hfirst : σ.get? (name ++ "_start") = some (.number first))
    (hlast : σ.get? (name ++ "_end") = some (.number last)) (step : Float) :
    HasRange name first last step (σ.put (name ++ "_inc") (.number step)) :=
  ⟨(Entries.get?_put_of_ne _ _ (start_ne_inc name)).trans hfirst,
    (Entries.get?_put_of_ne _ _ (end_ne_inc name)).trans hlast, Entries.get?_put_self ..⟩

theorem exec_rangeStart (limit : Nat) (free : String → Prop) {fromCode toCode byCode : Expr}
    {size : Float} {s : Scopes Value} (hfrom : Denotes names s fromCode (.number first))
    (hto : Denotes names s toCode (.number last)) (hby : Denotes names s byCode (.number size))
    (hunbound : ∀ temporary ∈ rangeNames name, temporary ∉ names)
    (hfree : ∀ temporary ∈ rangeNames name, ¬ free temporary) {σ : Store} (hσ : Agrees names s σ) :
    ∃ σ', execBody limit (rangeStart name fromCode toCode byCode) σ = some (.none, σ') ∧
      Agrees names s σ' ∧ Keeps free σ σ' ∧
      HasRange name first last (if first > last then -size.abs else size.abs) σ' := by
  have hstart : name ++ "_start" ∈ rangeNames name := by simp [rangeNames]
  have hend : name ++ "_end" ∈ rangeNames name := by simp [rangeNames]
  have hinc : name ++ "_inc" ∈ rangeNames name := by simp [rangeNames]
  have hput : ∀ {σ : Store} {temporary} (w : Target.Value), temporary ∈ rangeNames name →
      Agrees names s σ → Agrees names s (σ.put temporary w) ∧ Keeps free σ (σ.put temporary w) :=
    fun w ht h => ⟨h.put (hunbound _ ht) w, .put (hfree _ ht) w⟩
  have habs : Denotes names s (.call "Math.abs" [byCode]) (.number size.abs) := .call (.one hby) rfl
  obtain ⟨hσ₁, hkeeps₁⟩ := hput (.number first) hstart hσ
  obtain ⟨hσ₂, hkeeps₂⟩ := hput (.number last) hend hσ₁
  obtain ⟨hσ₃, hkeeps₃⟩ := hput (.number size.abs) hinc hσ₂
  have hkeeps := (hkeeps₁.trans hkeeps₂).trans hkeeps₃
  have hrange : HasRange name first last size.abs (((σ.put (name ++ "_start") (.number first)).put
      (name ++ "_end") (.number last)).put (name ++ "_inc") (.number size.abs)) :=
    .of_put ((Entries.get?_put_of_ne _ _ (start_ne_end name)).trans (Entries.get?_put_self ..))
      (Entries.get?_put_self ..) _
  have hcompare := eval_binary (eval_variable hrange.first)
    (rfl : BinaryOp.greater.decides _ = false) (eval_variable hrange.last)
  have hexec : ∀ {rest : List Stmt} {result}, execBody limit rest _ = result →
      execBody limit (.expr (.assign (name ++ "_start") fromCode) ::
        .expr (.assign (name ++ "_end") toCode) ::
        .expr (.assign (name ++ "_inc") (.call "Math.abs" [byCode])) :: rest) σ = result :=
    fun h => (execBody_cons (exec_expr (eval_assign (hfrom _ hσ)))).trans
      ((execBody_cons (exec_expr (eval_assign (hto _ hσ₁)))).trans
        ((execBody_cons (exec_expr (eval_assign (habs _ hσ₂)))).trans h))
  by_cases hgreater : first > last
  · have htruth := (truthy_greater first last).trans (decide_eq_true hgreater)
    obtain ⟨hσ₄, hkeeps₄⟩ := hput (.number (-size.abs)) hinc hσ₃
    have hnegate : (Stmt.expr (.assign (name ++ "_inc")
        (.unary .negate (.variable (name ++ "_inc"))))).exec limit _ = _ :=
      exec_expr (eval_assign (eval_unary .negate (eval_variable hrange.step)))
    refine ⟨_, hexec (execBody_singleton (exec_branch_true hcompare htruth
      (execBody_singleton hnegate))), hσ₄, hkeeps.trans hkeeps₄, ?_⟩
    rw [if_pos hgreater]
    exact .of_put hrange.first hrange.last _
  · have htruth := (truthy_greater first last).trans (decide_eq_false hgreater)
    refine ⟨_, hexec (execBody_singleton (exec_branch_false hcompare htruth rfl)), hσ₃, hkeeps, ?_⟩
    rw [if_neg hgreater]
    exact hrange

theorem get_number {α : Type} {f : Float → Structured α} {a : α} {s s' : Scopes Value} {σ : Store}
    (hσ : Agrees names s σ) (hname : name ∈ names)
    (hr : outcome (do f (← (← get name).asNumber)) s = (.ok a, s')) :
    ∃ x, σ.get? name = some (.number x) ∧ outcome (f x) s = (.ok a, s') := by
  obtain ⟨v, s₁, hv, hr⟩ := bind_eq_ok.1 hr
  obtain ⟨hvalue, rfl⟩ := Prod.mk.inj hv
  obtain rfl := Except.ok.inj hvalue
  obtain ⟨x, s₂, hx, hr⟩ := bind_eq_ok.1 hr
  obtain ⟨hnumber, rfl⟩ := Structured.lift_eq_ok.1 hx
  obtain ⟨v, hscope, hstore⟩ := hσ.get hname
  rw [hscope] at hnumber
  obtain rfl : v = .number x := Value.asNumber_eq_ok.1 hnumber
  exact ⟨x, hstore, hr⟩

theorem eval_rangeCondition {current : Float} {σ : Store} (hrange : HasRange name first last step σ)
    (hcurrent : σ.get? name = some (.number current)) :
    ∃ w, (rangeCondition name).eval σ = some (w, σ) ∧
      w.truthy = decide (if step ≥ 0.0 then current ≤ last else current ≥ last) := by
  have hup := eval_binary (eval_variable hcurrent) (rfl : BinaryOp.lessOrEqual.decides _ = false)
    (eval_variable hrange.last)
  have hdown := eval_binary (eval_variable hcurrent)
    (rfl : BinaryOp.greaterOrEqual.decides _ = false) (eval_variable hrange.last)
  rw [rangeCondition, eval_conditional (eval_binary (eval_variable hrange.step)
    (rfl : BinaryOp.greaterOrEqual.decides _ = false) (eval_num 0 σ)), truthy_greaterOrEqual]
  by_cases hstep : step ≥ 0.0
  · have hstep' : step ≥ 0 := hstep
    refine ⟨_, (if_pos (decide_eq_true hstep')).trans hup, ?_⟩
    rw [truthy_lessOrEqual]
    exact decide_eq_decide.2 (by rw [if_pos hstep])
  · have hstep' : ¬ step ≥ 0 := hstep
    refine ⟨_, (if_neg (by simpa using hstep')).trans hdown, ?_⟩
    rw [truthy_greaterOrEqual]
    exact decide_eq_decide.2 (by rw [if_neg hstep])

theorem HasRange.put {σ : Store} (h : HasRange name first last step σ) (hname : name ∈ names)
    (hunbound : ∀ temporary ∈ rangeNames name, temporary ∉ names) (w : Target.Value) :
    HasRange name first last step (σ.put name w) := by
  have hne : ∀ temporary ∈ rangeNames name, temporary ≠ name := fun _ ht heq =>
    hunbound _ ht (heq ▸ hname)
  refine ⟨?_, ?_, ?_⟩
  · rw [Entries.get?_put_of_ne _ _ (hne _ (by simp [rangeNames]))]
    exact h.first
  · rw [Entries.get?_put_of_ne _ _ (hne _ (by simp [rangeNames]))]
    exact h.last
  · rw [Entries.get?_put_of_ne _ _ (hne _ (by simp [rangeNames]))]
    exact h.step

def Bodies.rangeStep (bodies : Bodies) (name : String) (last step : Float) :
    Structured (Option Unit) := do
  let current ← (← get name).asNumber
  if (if step ≥ 0.0 then current ≤ last else current ≥ last) then
    if ← bodies.round then
      let current ← (← get name).asNumber
      set name (.number (current + step))
      return some ()
    else return none
  else return none

section

variable {free free' : String → Prop} {bodies : Bodies} {body : List Stmt}
  (hround : Simulates limit names free' id body (bodies.run "DO"))
  (hfree : ∀ name, free name → free' name) (hkept : ∀ temporary ∈ rangeNames name, free' temporary)
  (hname : name ∈ names) (hunbound : ∀ temporary ∈ rangeNames name, temporary ∉ names)
  (hvariable : ¬ free name)

include hround hfree hkept hname hunbound hvariable

theorem turns_rangeStep : Turns names free (fun _ σ => HasRange name first last step σ)
    (fun () => bodies.rangeStep name last step)
    (turn (rangeCondition name).eval (fun σ => execBody limit body σ)
      (fun σ => ((rangeUpdate name).eval σ).map Prod.snd)) := by
  intro t s x s' σ hr hσ hrange
  obtain ⟨current, hcurrent, hr⟩ := get_number hσ hname hr
  obtain ⟨w, hcondition, hw⟩ := eval_rangeCondition hrange hcurrent
  refine turn_of_round hround hfree hcondition hw hσ ?_ hr
  intro s₂ x s₃ σ₁ hr hσ₁ hkeeps
  -- the round may have assigned the variable, so it is read anew; the range is as before
  obtain ⟨current, hcurrent, hr⟩ := get_number hσ₁ hname hr
  obtain ⟨_, s₄, hset, hpure⟩ := bind_eq_ok.1 hr
  obtain ⟨-, rfl⟩ := Prod.mk.inj hset
  obtain ⟨rfl, rfl⟩ := pure_eq_ok.1 hpure
  have hrange₁ := hrange.of_keeps hkeeps hkept
  have hsum := eval_binary (eval_variable hcurrent) (rfl : BinaryOp.add.decides _ = false)
    (eval_variable hrange₁.step)
  exact ⟨(), _, rfl, congrArg (Option.map Prod.snd) (eval_assign hsum),
    hσ₁.set hname (.number (current + step)), .put hvariable _, hrange₁.put hname hunbound _⟩

theorem exec_range {s s' : Scopes Value} {σ : Store}
    (hr : outcome (inScope do
      set name (.number first)
      iterate (fun () => bodies.rangeStep name last step) limit ()) s = (.ok (), s'))
    (hσ : Agrees names s σ) (hrange : HasRange name first last step σ) :
    ∃ σ', (Stmt.forLoop (.assign name (.variable (name ++ "_start"))) (rangeCondition name)
        (rangeUpdate name) body).exec limit σ = some (.none, σ') ∧
      Agrees names s' σ' ∧ Keeps free σ σ' := by
  obtain ⟨s₁, hloop, rfl⟩ := inScope_eq_ok hr
  obtain ⟨_, s₂, hset, hloop⟩ := bind_eq_ok.1 hloop
  obtain ⟨-, rfl⟩ := Prod.mk.inj hset
  obtain ⟨σ', hexec, hσ', hkeeps⟩ := turns_of_iterate
    (turns_rangeStep hround hfree hkept hname hunbound hvariable) hloop
    (hσ.push.set hname (.number first)) (hrange.put hname hunbound _)
  have hstart : Keeps free σ (σ.put name (.number first)) := .put hvariable _
  exact ⟨σ', exec_forLoop (eval_assign (eval_variable hrange.first)) hexec, hσ'.pop,
    hstart.trans hkeeps⟩

end

end

section

variable {b : Block Kind} {κ κ₁ : Context Expr} {stmts : List Stmt}
  (hbodies : ∀ s ∈ b.statements, ChainSimulated limit names s.chain)
  (hslots : ∀ (c : Context Value), ∀ s ∈ b.values,
    Mirrors c (Computes names c) (evaluateChain limit s.chain) (compileExpression s.chain))

include hbodies hslots

theorem simulates_range (hkind : b.kind = .countRange) (hshared : b.Shared names)
    (hcounters : ∀ k, ∀ name ∈ counterNames k, name ∉ names)
    (h : outcome b.codeParts.compileRange κ = (.ok stmts, κ₁)) :
    Simulates limit names (Free names κ.depth b.ranges) (fun _ => .none) stmts
      ((bodiesOf limit b.statements).runRange (b.runParts limit).withoutBodies limit) := by
  obtain ⟨name, κ₂, hname, h⟩ := bind_eq_ok.1 h
  obtain ⟨hfield, rfl⟩ := Compilation.lift_eq_ok.1 hname
  obtain ⟨fromCode, κ₃, hfrom, h⟩ := bind_eq_ok.1 h
  obtain ⟨toCode, κ₄, hto, h⟩ := bind_eq_ok.1 h
  obtain ⟨byCode, κ₅, hby, h⟩ := bind_eq_ok.1 h
  obtain ⟨_, κ₆, hfirst, h⟩ := bind_eq_ok.1 h
  obtain ⟨_, κ₇, hlast, h⟩ := bind_eq_ok.1 h
  obtain ⟨_, κ₈, hstep, h⟩ := bind_eq_ok.1 h
  obtain ⟨_, κ₉, hvariable, h⟩ := bind_eq_ok.1 h
  obtain ⟨body, κ₁₀, hbody, h⟩ := bind_eq_ok.1 h
  obtain ⟨rfl, rfl⟩ := pure_eq_ok.1 h
  have hdepth : κ₉.depth = κ.depth := by
    rw [(Level.declare _ _).depth_eq hvariable, (Level.declare _ _).depth_eq hstep,
      (Level.declare _ _).depth_eq hlast, (Level.declare _ _).depth_eq hfirst,
      (b.level_steps (.compile _)).depth_eq hby, (b.level_steps (.compile _)).depth_eq hto,
      (b.level_steps (.compile _)).depth_eq hfrom]
  have hround := simulates_loopBody hbodies hbody
  rw [hdepth] at hround
  have hvar : b.fields.get? "VAR" = some name := Parts.field_eq_ok.1 hfield
  have hmember := hshared.bound name hvar
  have hunbound := hshared.unbound hkind name hvar
  have hranges : b.ranges = name :: slotRanges b.statements := by
    rw [b.ranges_eq, if_pos hkind, hvar]
    rfl
  have hfree : ∀ other, Free names κ.depth b.ranges other →
      Free names (κ.depth + 1) (slotRanges b.statements) other := by
    intro other h
    refine h.mono (Nat.le_succ _) ?_
    rw [hranges]
    exact List.subset_cons_self ..
  have hcounter : ∀ k, name ≠ counterName k := by
    rintro k rfl
    exact hcounters k _ (List.mem_cons_self ..) hmember
  refine .lift hfield fun s a s' σ hr hσ => ?_
  obtain ⟨first, s₁, hx, hr₁⟩ := bind_eq_ok.1 hr
  obtain ⟨rfl, w, rfl, hdenotes⟩ := evaluates_number hslots hfrom s first s₁ hx
  obtain ⟨last, s₂, hy, hr₂⟩ := bind_eq_ok.1 hr₁
  obtain ⟨rfl, w, rfl, hdenotes'⟩ := evaluates_number hslots hto s₁ last s₂ hy
  obtain ⟨size, s₃, hz, hr₃⟩ := bind_eq_ok.1 hr₂
  obtain ⟨rfl, w, rfl, hdenotes''⟩ := evaluates_number hslots hby s₂ size s₃ hz
  obtain ⟨σ₁, hexec, hσ₁, hkeeps, hrange⟩ := exec_rangeStart limit
    (Free names κ.depth b.ranges) hdenotes hdenotes' hdenotes'' hunbound
    (fun t ht hfree => hfree.ranges name (hranges ▸ List.mem_cons_self ..) ht) hσ
  obtain ⟨σ', hloop, hσ', hkeeps'⟩ := exec_range hround hfree
    (fun t ht => .of_range ht (hunbound t ht) hcounter (hshared.nested hkind name hvar)) hmember
    hunbound (fun h => h.unbound hmember) hr₃ hσ₁ hrange
  refine ⟨σ', ?_, hσ', hkeeps.trans hkeeps'⟩
  have happend := execBody_append limit (rangeStart name fromCode toCode byCode)
    [.forLoop (.assign name (.variable (name ++ "_start"))) (rangeCondition name)
      (rangeUpdate name) body] σ
  rw [hexec] at happend
  exact happend.trans (execBody_singleton hloop)

end

end Blockwork
