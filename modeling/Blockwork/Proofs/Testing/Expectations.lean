import Blockwork.Proofs.Workspace.Building
import Blockwork.Testing.Check

/-! What it takes for a test case to pass. A refusal that is expected ends the check where it comes, so
it hides what the case says of the program behind it; every other expectation that is stated holds. -/

namespace Blockwork.Testing

inductive Expectation where
  | parseError
  | generateError (part : String)
  | code (part : String)
  | error (part : String)
  | bindings (expected : Toml.Table)

def Expectations.stated (e : Expectations) : List Expectation :=
  (if e.parseError then [.parseError] else []) ++
    e.generateError.toList.map .generateError ++ e.codeContains.map .code ++
    e.error.toList.map .error ++ e.bindings.toList.map .bindings

/-- The expectation is of something behind a refusal that is expected too. -/
def Expectations.Hides (e : Expectations) : Expectation → Prop
  | .parseError => False
  | .generateError _ | .error _ => e.parseError = true
  | .code _ => e.parseError = true ∨ e.generateError.isSome = true
  | .bindings _ => e.parseError = true ∨ e.error.isSome = true

def IsBound (bound : Entries Value) (name : String) (item : Toml) : Prop :=
  ∃ actual expected, bound.get? name = some actual ∧ Value.ofToml item = .ok expected ∧
    actual.equals expected = true

/-- Without a parse error to come, one expectation of the compilation and one of the run decide which
of the others are hidden. -/
theorem forall_visible_iff {e : Expectations} {P : Expectation → Prop} :
    (∀ x ∈ e.stated, ¬ e.Hides x → P x) ↔ (e.parseError = true → P .parseError) ∧
      (e.parseError = false →
        ((∀ part ∈ e.generateError, P (.generateError part)) ∧
          (e.generateError = none → ∀ part ∈ e.codeContains, P (.code part))) ∧
        (∀ part ∈ e.error, P (.error part)) ∧
          (e.error = none → ∀ expected ∈ e.bindings, P (.bindings expected))) := by
  obtain ⟨bindings, error, parseError, generateError, codeContains⟩ := e
  cases parseError <;> cases generateError <;> cases error <;> cases bindings <;>
    simp [Expectations.stated, Expectations.Hides, or_imp, forall_and]

section Checks

variable {κ : Type} [Behaviour κ]

/-- What the expectation says of the program, whatever else the case says. -/
def Expectation.Holds (registry : Registry κ) (limit : Nat) (case : Case) (source : String) :
    Expectation → Prop
  | .parseError => ∃ e, Workspace.ofText registry source = .error e
  | .generateError part => ∃ w e, Workspace.ofText registry source = .ok w ∧
      w.compile = .error e ∧ part.toList <:+: e.message.toList
  | .code part => ∃ w program, Workspace.ofText registry source = .ok w ∧
      w.compile = .ok program ∧ part.toList <:+: program.print.toList
  | .error part => ∃ w globals e, Workspace.ofText registry source = .ok w ∧
      Bindings.ofTable case.globals = .ok globals ∧ w.run limit globals = .error (.error e) ∧
      part.toList <:+: e.message.toList
  | .bindings expected => ∃ w globals execution, Workspace.ofText registry source = .ok w ∧
      Bindings.ofTable case.globals = .ok globals ∧ w.run limit globals = .ok execution ∧
      ∀ b ∈ expected, IsBound execution.bindings b.1 b.2

theorem occursIn_iff (needle s : String) :
    Text.occursIn needle s = true ↔ needle.toList <:+: s.toList :=
  Text.occursInChars_iff _ _

/-! ### Bindings -/

theorem null_equals_ofToml {item : Toml} {v : Value} (h : Value.ofToml item = .ok v) :
    Value.null.equals v = false := by
  cases item with
  | array items =>
    rw [Value.ofToml] at h
    cases hitems : Value.ofTomlItems items with
    | error e => rw [hitems] at h; cases h
    | ok values => rw [hitems] at h; cases h; rfl
  | moment | table => cases h
  | _ => cases h; rfl

theorem isBound_iff {bound : Entries Value} {name : String} {item : Toml} :
    IsBound bound name item ↔ ∃ expected, Value.ofToml item = .ok expected ∧
      ((bound.get? name).getD .null).equals expected = true := by
  constructor
  · rintro ⟨actual, expected, hget, hitem, hequal⟩
    exact ⟨expected, hitem, by rwa [hget, Option.getD_some]⟩
  · rintro ⟨expected, hitem, hequal⟩
    cases hget : bound.get? name with
    | none =>
      rw [hget, Option.getD_none, null_equals_ofToml hitem] at hequal
      cases hequal
    | some actual =>
      rw [hget, Option.getD_some] at hequal
      exact ⟨actual, expected, hget, hitem, hequal⟩

theorem checkBindings_eq_ok_iff {bound : Entries Value} {expected : Toml.Table} :
    checkBindings bound expected = .ok () ↔ ∀ b ∈ expected, IsBound bound b.1 b.2 := by
  induction expected with
  | nil => exact ⟨fun _ _ h => absurd h List.not_mem_nil, fun _ => rfl⟩
  | cons b rest ih =>
    obtain ⟨name, item⟩ := b
    rw [List.forall_mem_cons, ← ih, isBound_iff, checkBindings]
    cases hitem : Value.ofToml item with
    | error e => simp
    | ok v =>
      cases hequal : ((bound.get? name).getD .null).equals v <;> simp [hequal]

/-! ### The parts of a check -/

theorem checkCompilation_eq_ok_iff {w : Workspace κ} {e : Expectations} :
    checkCompilation w e = .ok () ↔
      (∀ part ∈ e.generateError, ∃ refusal, w.compile = .error refusal ∧
        part.toList <:+: refusal.message.toList) ∧
      (e.generateError = none → ∀ part ∈ e.codeContains, ∃ program, w.compile = .ok program ∧
        part.toList <:+: program.print.toList) := by
  unfold checkCompilation
  cases hgenerate : e.generateError with
  | some expected =>
    rw [if_neg (by simp)]
    cases w.compile with
    | error refusal => simp [← occursIn_iff]
    | ok program => simp
  | none =>
    cases hcode : e.codeContains with
    | nil => simp
    | cons part rest =>
      rw [if_neg (by simp)]
      cases w.compile with
      | error refusal => simpa using ⟨part, fun h => absurd rfl h⟩
      | ok program => simp [List.filter_eq_nil_iff, ← occursIn_iff]

theorem checkRun_eq_ok_iff {outcome : Except Halt Workspace.Execution} {e : Expectations} :
    checkRun outcome e = .ok () ↔
      (∀ part ∈ e.error, ∃ reason, outcome = .error (.error reason) ∧
        part.toList <:+: reason.message.toList) ∧
      (e.error = none → ∃ execution, outcome = .ok execution ∧
        ∀ expected ∈ e.bindings, ∀ b ∈ expected, IsBound execution.bindings b.1 b.2) := by
  rcases outcome with (reason | _) | execution <;> cases herror : e.error
  case ok.none =>
    cases hbindings : e.bindings with
    | none => simp [checkRun, herror, hbindings]
    | some expected => simp [checkRun, herror, hbindings, checkBindings_eq_ok_iff]
  all_goals simp [checkRun, herror, ← occursIn_iff]

section

variable {registry : Registry κ} {limit : Nat} {case : Case} {source : String}

theorem check_of_unloaded {e : EngineError} (h : Workspace.ofText registry source = .error e) :
    case.check registry limit source =
      if case.expect.parseError then .ok () else .error (.unloadable e) := by
  rw [Case.check, h]

theorem check_of_loaded {w : Workspace κ} (h : Workspace.ofText registry source = .ok w) :
    case.check registry limit source =
      if case.expect.parseError then .error .loaded
      else checkCompilation w case.expect >>= fun _ =>
        match Bindings.ofTable case.globals with
        | .error e => .error (.global e)
        | .ok globals => checkRun (w.run limit globals) case.expect := by
  rw [Case.check, h]
  cases case.expect.parseError <;> rfl

theorem check_eq_ok_of_loaded {w : Workspace κ} (h : Workspace.ofText registry source = .ok w) :
    case.check registry limit source = .ok () ↔ case.expect.parseError = false ∧
      checkCompilation w case.expect = .ok () ∧ ∃ globals, Bindings.ofTable case.globals = .ok globals ∧
        checkRun (w.run limit globals) case.expect = .ok () := by
  rw [check_of_loaded h]
  cases case.expect.parseError with
  | true => simp
  | false =>
    rw [if_neg Bool.false_ne_true, bind_ok_iff]
    constructor
    · rintro ⟨⟨⟩, hcompile, hrun⟩
      cases hglobals : Bindings.ofTable case.globals with
      | error e => rw [hglobals] at hrun; cases hrun
      | ok globals => exact ⟨rfl, hcompile, globals, rfl, by rwa [hglobals] at hrun⟩
    · rintro ⟨-, hcompile, globals, hglobals, hrun⟩
      exact ⟨(), hcompile, by rwa [hglobals]⟩

/-- A case passes just if each expectation that it states and does not hide holds of the program, and
the program, unless it is to be refused, is loaded, gets all its globals and runs to its end where no
error is expected. -/
theorem check_eq_ok_iff (registry : Registry κ) (limit : Nat) (case : Case) (source : String) :
    case.check registry limit source = .ok () ↔
      (∀ x ∈ case.expect.stated, ¬ case.expect.Hides x → x.Holds registry limit case source) ∧
      (case.expect.parseError = false → ∃ w globals, Workspace.ofText registry source = .ok w ∧
        Bindings.ofTable case.globals = .ok globals ∧
        (case.expect.error = none → ∃ execution, w.run limit globals = .ok execution)) := by
  rw [forall_visible_iff]
  cases hw : Workspace.ofText registry source with
  | error e =>
    rw [check_of_unloaded hw]
    cases hparse : case.expect.parseError <;> simp [Expectation.Holds, hw]
  | ok w =>
    rw [check_eq_ok_of_loaded hw, checkCompilation_eq_ok_iff]
    simp only [checkRun_eq_ok_iff]
    cases hparse : case.expect.parseError with
    | true => simp [Expectation.Holds, hw]
    | false =>
      cases hglobals : Bindings.ofTable case.globals with
      | error e => simp
      | ok globals =>
        have hrun : (∃ execution, w.run limit globals = .ok execution ∧
              ∀ t ∈ case.expect.bindings, ∀ b ∈ t, IsBound execution.bindings b.1 b.2) ↔
            (∀ t ∈ case.expect.bindings, ∃ execution, w.run limit globals = .ok execution ∧
                ∀ b ∈ t, IsBound execution.bindings b.1 b.2) ∧
              ∃ execution, w.run limit globals = .ok execution := by
          cases w.run limit globals <;> simp
        simp only [Except.ok.injEq, exists_eq_left', hrun, imp_and]
        simp [Expectation.Holds, hw, hglobals, and_assoc]

end

end Checks

def unclosedProgram : String := "\x7b\"blocks\": ["

theorem unclosedProgram_unloaded :
    ∃ e, Workspace.ofText (Registry.standard (id : Kind → Kind)) unclosedProgram = .error e := by
  have hnone : (Workspace.ofText (Registry.standard (id : Kind → Kind))
      unclosedProgram).toOption.isNone = true := by decide +kernel
  cases h : Workspace.ofText (Registry.standard (id : Kind → Kind)) unclosedProgram with
  | error e => exact ⟨e, rfl⟩
  | ok w =>
    rw [h] at hnone
    cases hnone

/-- Where the program is not to be loaded, any error may be stated. -/
theorem parseError_hides_error : ¬ ∀ (limit : Nat) (case : Case) (source : String),
    case.check (Registry.standard (id : Kind → Kind)) limit source = .ok () →
      ∀ x ∈ case.expect.stated, x.Holds (Registry.standard (id : Kind → Kind)) limit case source := by
  intro h
  let case : Case :=
    { program := "p.json", expect := { error := some "unknown block kind", parseError := true } }
  obtain ⟨e, he⟩ := unclosedProgram_unloaded
  have hpasses : case.check (Registry.standard (id : Kind → Kind)) 0 unclosedProgram = .ok () :=
    check_of_unloaded he
  have hstated : .error "unknown block kind" ∈ case.expect.stated := by
    simp [case, Expectations.stated]
  obtain ⟨w, -, -, hw, -⟩ := h 0 case _ hpasses _ hstated
  rw [he] at hw
  cases hw

end Blockwork.Testing
