import Blockwork.Proofs.Compiler.Simulation

/-! The kinds that assign: the variable that the run sets is the one that the program assigns to, and
both give it the same value. -/

namespace Blockwork

open Target Structured

variable {names : List String} {limit : Nat} {b : Block Kind}

def Assigns (names : List String) (m : Run Unit) (d : Compilation Expr) : Prop :=
  ∀ c c₁ κ e κ₁, outcome m c = (.ok (), c₁) → outcome d κ = (.ok e, κ₁) →
    ∃ name v value, name ∈ names ∧ c₁ = c.set name v ∧ e = .assign name value ∧
      Denotes names c.scopes value v.target

theorem Compilation.assign_eq_ok {name : String} {value e : Expr} {κ κ₁ : Context Expr}
    (h : outcome (Compilation.assign name value) κ = (.ok e, κ₁)) : e = .assign name value := by
  obtain ⟨_, _, _, he⟩ := bind_eq_ok.1 h
  exact (pure_eq_ok.1 he).1.symm

theorem Assigns.of_mirrors {x : Except EngineError String} {f : String → Run Value}
    {g : String → Compilation Expr} (hbound : ∀ name, x = .ok name → name ∈ names)
    (h : ∀ c name, name ∈ names → Mirrors c (Computes names c) (f name) (g name)) :
    Assigns names (do let name ← x; let v ← f name; Run.set name v)
      (do let name ← x; let e ← g name; Compilation.assign name e) := by
  intro c c₁ κ e κ₁ hm hd
  obtain ⟨name, hx, hm, hd⟩ := setting_eq_ok hm hd
  obtain ⟨v, c', hv, hset⟩ := bind_eq_ok.1 hm
  obtain ⟨value, κ', hvalue, hassign⟩ := bind_eq_ok.1 hd
  have hmember := hbound name hx
  obtain ⟨rfl, hdenotes⟩ := h c name hmember v c' κ value κ' hv hvalue
  exact ⟨name, v, value, hmember, (Prod.mk.inj hset).2.symm, Compilation.assign_eq_ok hassign,
    hdenotes⟩

theorem Mirrors.get {γ δ : Type} {c : Context Value} {S : γ → δ → Prop} {name : String}
    {f : Value → Run γ} {d : Compilation δ} (h : Mirrors c S (f ((c.get? name).getD .null)) d) :
    Mirrors c S (Run.get name >>= f) d := by
  intro a c₁ κ e κ₁ hm hd
  obtain ⟨v, c', hv, hm⟩ := bind_eq_ok.1 hm
  obtain ⟨hvalue, rfl⟩ := Prod.mk.inj hv
  obtain rfl := Except.ok.inj hvalue
  exact h a c₁ κ e κ₁ hm hd

section

variable (hbound : ∀ name ∈ b.fields.get? "VAR", name ∈ names)
  (hslots : ∀ (c : Context Value), ∀ s ∈ b.values,
    Mirrors c (Computes names c) (evaluateChain limit s.chain) (compileExpression s.chain))

include hbound hslots

theorem assigns_set : Assigns names (b.runParts limit).executeSet b.codeParts.compileSet :=
  .of_mirrors (fun name h => hbound name (Parts.field_eq_ok.1 h))
    fun c _ _ => mirrors_evaluate (hslots c) "VALUE"

def Value.counted : Value → Run Float
  | .null => pure 0.0
  | v => v.asNumber

theorem assigns_change :
    Assigns names (b.runParts limit).executeChange b.codeParts.compileChange := by
  have hrun : (b.runParts limit).executeChange = (do
      let name ← (b.runParts limit).variable
      let v ← (do
        let delta ← (b.runParts limit).evaluateNumber "DELTA"
        let v ← Run.get name
        let current ← v.counted
        return .number (current + delta))
      Run.set name v) := by
    simp only [Parts.executeChange, bind_assoc]
    refine bind_congr fun name => bind_congr fun delta => bind_congr fun v => ?_
    cases v <;> simp only [Value.counted, pure_bind]
  have hcode : b.codeParts.compileChange = (do
      let name ← b.codeParts.variable
      let e ← (do
        let delta ← b.codeParts.compile "DELTA"
        let isNumber : Expr := .binary .equal (.unary .typeOf (.variable name)) (.text "number")
        return .binary .add (.conditional isNumber (.variable name) (.num 0)) delta)
      Compilation.assign name e) := by
    simp only [Parts.compileChange, bind_assoc, pure_bind]
  rw [hrun, hcode]
  refine .of_mirrors (fun name h => hbound name (Parts.field_eq_ok.1 h)) fun c name hname => ?_
  refine (mirrors_number (hslots c) "DELTA").bind fun delta e he => .get ?_
  have hvariable : Denotes names c.scopes (.variable name) _ := .get hname
  have hkind := (hvariable.unary .typeOf).binary (r := .text "number") (fun _ _ => rfl)
    (rfl : BinaryOp.equal.decides _ = false)
  cases hv : (c.get? name).getD .null with
  | number current =>
    rw [hv] at hvariable hkind
    exact .pure ((hkind.conditional_true rfl hvariable).binary he rfl)
  | null =>
    rw [hv] at hkind
    exact .pure ((hkind.conditional_false rfl (.num 0)).binary he rfl)
  | _ => exact .check fun current h => absurd h (by simp [Value.asNumber])

def Value.appended : Value → String
  | .null => ""
  | v => v.display

theorem assigns_append :
    Assigns names (b.runParts limit).executeAppend b.codeParts.compileAppend := by
  have hrun : (b.runParts limit).executeAppend = (do
      let name ← (b.runParts limit).variable
      let v ← (do
        let suffix ← (b.runParts limit).evaluateText "TEXT"
        let v ← Run.get name
        return .text (v.appended ++ suffix))
      Run.set name v) := by
    simp only [Parts.executeAppend, bind_assoc, pure_bind]
    refine bind_congr fun name => bind_congr fun suffix => bind_congr fun v => ?_
    cases v <;> rfl
  have hcode : b.codeParts.compileAppend = (do
      let name ← b.codeParts.variable
      let e ← (do
        let suffix ← b.codeParts.compileText "TEXT"
        return .binary .add (Expr.binary .coalesce (.variable name) (.text "")).toText suffix)
      Compilation.assign name e) := by
    simp only [Parts.compileAppend, bind_assoc, pure_bind]
  rw [hrun, hcode]
  refine .of_mirrors (fun name h => hbound name (Parts.field_eq_ok.1 h)) fun c name hname => ?_
  refine (mirrors_text (hslots c) "TEXT").bind fun suffix e he => .get ?_
  have hvariable : Denotes names c.scopes (.variable name) _ := .get hname
  refine .pure ?_
  cases hv : (c.get? name).getD .null with
  | null =>
    rw [hv] at hvariable
    have hempty := hvariable.binary (r := .text "") (fun _ _ => rfl)
      (rfl : BinaryOp.coalesce.decides _ = false)
    exact hempty.toText.binary he rfl
  | _ =>
    rw [hv] at hvariable
    have htext := (hvariable.decided (r := .text "")
      (rfl : BinaryOp.coalesce.decides _ = true)).toText
    rw [Value.display_target] at htext
    exact htext.binary he rfl

end

/-! ### Statements -/

section

variable {free : String → Prop} {κ κ₁ : Context Expr} {code : Code}

theorem simulates_reading {m : Run Value} {d : Compilation Code}
    (h : ∀ c : Context Value, Mirrors c (Code.Denotes names c.scopes) m d)
    (hd : outcome d κ = (.ok code, κ₁)) :
    Simulates limit names free Prod.snd code.body (do return (← ofRun m, .none)) := by
  intro s a s' σ hr hσ
  obtain ⟨v, s₁, hv, ha⟩ := bind_eq_ok.1 hr
  obtain ⟨rfl, rfl⟩ := pure_eq_ok.1 ha
  obtain ⟨c, hc, rfl⟩ := outcome_ofRun hv
  obtain ⟨rfl, hcode⟩ := h s.context v c κ code κ₁ hc hd
  rw [Context.scopes_context] at hcode ⊢
  cases code with
  | expression e =>
    exact ⟨σ, execBody_singleton (exec_expr (hcode σ hσ)), hσ, .refl _ _⟩
  | statements body => exact absurd hcode id

theorem simulates_assignment {m : Run Unit} {d : Compilation Expr} (h : Assigns names m d)
    (hd : outcome (Code.expression <$> d) κ = (.ok code, κ₁))
    (hfree : ∀ name, free name → name ∉ names) :
    Simulates limit names free Prod.snd code.body
      (do return (← ofRun (do m; return Value.null), .none)) := by
  intro s a s' σ hr hσ
  obtain ⟨v, s₁, hv, ha⟩ := bind_eq_ok.1 hr
  obtain ⟨rfl, rfl⟩ := pure_eq_ok.1 ha
  obtain ⟨c, hc, rfl⟩ := outcome_ofRun hv
  obtain ⟨_, c₁, hm, hnull⟩ := bind_eq_ok.1 hc
  obtain ⟨-, rfl⟩ := pure_eq_ok.1 hnull
  obtain ⟨e, he, rfl⟩ := map_eq_ok.1 hd
  obtain ⟨name, w, value, hname, rfl, rfl, hvalue⟩ := h s.context c₁ κ e κ₁ hm he
  rw [Context.scopes_context] at hvalue
  rw [Context.scopes_set, Context.scopes_context]
  refine ⟨_, execBody_singleton (exec_expr (eval_assign (hvalue σ hσ))), hσ.set hname w, .put ?_ _⟩
  exact fun h => hfree name h hname

end

end Blockwork
