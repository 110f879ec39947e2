import Blockwork.Proofs.Compiler.Depth
import Blockwork.Proofs.Compiler.ValueChains

/-! Compiled statements do to a store what their structured reading does to the scopes that it agrees
with, and leave alone the names of the loops around them. -/

namespace Blockwork

open Target Structured

variable {α β : Type} {names : List String} {limit : Nat}

def Keeps (free : String → Prop) (σ σ' : Store) : Prop :=
  ∀ name, free name → σ'.get? name = σ.get? name

namespace Keeps

variable {free free' : String → Prop} {σ σ₁ σ₂ : Store}

protected theorem refl (free : String → Prop) (σ : Store) : Keeps free σ σ := fun _ _ => rfl

protected theorem trans (h : Keeps free σ σ₁) (h' : Keeps free σ₁ σ₂) : Keeps free σ σ₂ :=
  fun name hname => (h' name hname).trans (h name hname)

theorem mono (h : Keeps free' σ σ₁) (hfree : ∀ name, free name → free' name) : Keeps free σ σ₁ :=
  fun name hname => h name (hfree name hname)

theorem put {name : String} (hname : ¬ free name) (w : Target.Value) :
    Keeps free σ (σ.put name w) := by
  intro other hother
  refine Entries.get?_put_of_ne _ _ ?_
  rintro rfl
  exact hname hother

end Keeps

/-- What the reading does to the scopes the statements do to every store that agrees with them. -/
def Simulates (limit : Nat) (names : List String) (free : String → Prop) (ends : α → Escape)
    (body : List Stmt) (r : Structured α) : Prop :=
  ∀ s a s' σ, outcome r s = (.ok a, s') → Agrees names s σ →
    ∃ σ', execBody limit body σ = some (ends a, σ') ∧ Agrees names s' σ' ∧ Keeps free σ σ'

theorem Structured.lift_eq_ok {x : Except EngineError α} {s s' : Scopes Value} {a : α} :
    outcome (liftM x : Structured α) s = (.ok a, s') ↔ x = .ok a ∧ s = s' := by
  show (x.mapError Halt.error, s) = (.ok a, s') ↔ _
  cases x <;> simp [Except.mapError]

theorem inScope_eq_ok {r : Structured α} {s s' : Scopes Value} {a : α}
    (h : outcome (Structured.inScope r) s = (.ok a, s')) :
    ∃ s₁, outcome r s.push = (.ok a, s₁) ∧ s₁.pop = s' := by
  have hfst : (outcome r s.push).1 = .ok a := congrArg Prod.fst h
  exact ⟨_, Prod.ext hfst rfl, congrArg Prod.snd h⟩

namespace Simulates

variable {free free' : String → Prop} {ends : α → Escape} {ends' : β → Escape}
  {body rest : List Stmt} {r : Structured α}

theorem nil {a : α} (h : ends a = .none) : Simulates limit names free ends [] (pure a) := by
  intro s b s' σ hr hσ
  obtain ⟨rfl, rfl⟩ := pure_eq_ok.1 hr
  refine ⟨σ, ?_, hσ, .refl _ _⟩
  rw [execBody, h]

theorem mono (h : Simulates limit names free' ends body r)
    (hfree : ∀ name, free name → free' name) : Simulates limit names free ends body r := by
  intro s a s' σ hr hσ
  obtain ⟨σ', hexec, hσ', hkeeps⟩ := h s a s' σ hr hσ
  exact ⟨σ', hexec, hσ', hkeeps.mono hfree⟩

theorem inScope (h : Simulates limit names free ends body r) :
    Simulates limit names free ends body (Structured.inScope r) := by
  intro s a s' σ hr hσ
  obtain ⟨s₁, hbody, rfl⟩ := inScope_eq_ok hr
  obtain ⟨σ', hexec, hσ', hkeeps⟩ := h s.push a s₁ σ hbody hσ.push
  exact ⟨σ', hexec, hσ'.pop, hkeeps⟩

theorem append {f : α → Structured β} (h : Simulates limit names free ends body r)
    (hf : ∀ a, ends a = .none → Simulates limit names free ends' rest (f a))
    (hstop : ∀ a, ends a ≠ .none → ∃ b, f a = pure b ∧ ends' b = ends a) :
    Simulates limit names free ends' (body ++ rest) (r >>= f) := by
  intro s b s' σ hr hσ
  obtain ⟨a, s₁, ha, hb⟩ := bind_eq_ok.1 hr
  obtain ⟨σ₁, hexec, hσ₁, hkeeps⟩ := h s a s₁ σ ha hσ
  rw [execBody_append, hexec]
  by_cases hnone : ends a = .none
  · obtain ⟨σ₂, hexec₂, hσ₂, hkeeps₂⟩ := hf a hnone s₁ b s' σ₁ hb hσ₁
    refine ⟨σ₂, ?_, hσ₂, hkeeps.trans hkeeps₂⟩
    show (if ends a = .none then execBody limit rest σ₁ else some (ends a, σ₁)) = _
    rw [if_pos hnone]
    exact hexec₂
  · obtain ⟨b', hpure, hends⟩ := hstop a hnone
    rw [hpure] at hb
    obtain ⟨rfl, rfl⟩ := pure_eq_ok.1 hb
    refine ⟨σ₁, ?_, hσ₁, hkeeps⟩
    show (if ends a = .none then execBody limit rest σ₁ else some (ends a, σ₁)) = _
    rw [if_neg hnone, hends]

theorem lift {γ : Type} {x : Except EngineError γ} {a : γ} {f : γ → Structured α} (hx : x = .ok a)
    (h : Simulates limit names free ends body (f a)) :
    Simulates limit names free ends body (liftM x >>= f) := by
  subst hx
  exact h

theorem map {f : α → β} (h : Simulates limit names free ends body r)
    (hf : ∀ a, ends' (f a) = ends a) : Simulates limit names free ends' body (f <$> r) := by
  intro s b s' σ hr hσ
  obtain ⟨a, ha, rfl⟩ := map_eq_ok.1 hr
  rw [hf]
  exact h s a s' σ ha hσ

end Simulates

/-! ### Values -/

def Evaluates (names : List String) (R : α → Target.Value → Prop) (m : Run α) (e : Expr) : Prop :=
  ∀ s a s', outcome (ofRun m) s = (.ok a, s') → s' = s ∧ ∃ w, R a w ∧ Denotes names s e w

theorem outcome_ofRun {m : Run α} {s s' : Scopes Value} {a : α}
    (h : outcome (ofRun m) s = (.ok a, s')) :
    ∃ c, outcome m s.context = (.ok a, c) ∧ c.scopes = s' := by
  have hfst : (outcome m s.context).1 = .ok a := congrArg Prod.fst h
  exact ⟨_, Prod.ext hfst rfl, congrArg Prod.snd h⟩

theorem Mirrors.evaluates {R : α → Target.Value → Prop} {m : Run α} {d : Compilation Expr}
    (h : ∀ c : Context Value, Mirrors c (fun a e => ∃ w, R a w ∧ Denotes names c.scopes e w) m d)
    {κ κ₁ : Context Expr} {e : Expr} (hd : outcome d κ = (.ok e, κ₁)) : Evaluates names R m e := by
  intro s a s' hm
  obtain ⟨c, hc, rfl⟩ := outcome_ofRun hm
  obtain ⟨rfl, w, hw, he⟩ := h s.context a c κ e κ₁ hc hd
  rw [Context.scopes_context] at he
  exact ⟨Context.scopes_context s, w, hw, he⟩

section

variable {b : Block Kind} {κ κ₁ : Context Expr} {e : Expr} {name : String}
  (hslots : ∀ (c : Context Value), ∀ s ∈ b.values,
    Mirrors c (Computes names c) (evaluateChain limit s.chain) (compileExpression s.chain))

include hslots

theorem evaluates_value (h : outcome (b.codeParts.compile name) κ = (.ok e, κ₁)) :
    Evaluates names (fun v w => w = v.target) ((b.runParts limit).evaluate name) e := by
  refine Mirrors.evaluates (fun c => ?_) h
  exact (mirrors_evaluate (hslots c) name).imp fun _ _ he => ⟨_, rfl, he⟩

theorem evaluates_number (h : outcome (b.codeParts.compile name) κ = (.ok e, κ₁)) :
    Evaluates names (fun x w => w = .number x) ((b.runParts limit).evaluateNumber name) e := by
  refine Mirrors.evaluates (fun c => ?_) h
  exact (mirrors_number (hslots c) name).imp fun _ _ he => ⟨_, rfl, he⟩

theorem evaluates_condition (h : outcome (b.codeParts.compile name) κ = (.ok e, κ₁)) :
    Evaluates names (fun decided w => w.truthy = decided)
      ((b.runParts limit).evaluateCondition name) e := by
  refine Mirrors.evaluates (fun c => (mirrors_condition (hslots c) name).imp fun _ _ he => ?_) h
  obtain ⟨w, hw, hdecided⟩ := he
  exact ⟨w, hdecided, hw⟩

end

end Blockwork
