import Blockwork.Proofs.Compiler.Agreement
import Blockwork.Proofs.Number.Order

/-! The expression that a value slot compiles to has the value that the slot evaluates to. A run that
only reads and the compilation of the same block go side by side, step by step. -/

namespace Blockwork

open Target

variable {α β γ δ : Type}

namespace Compilation

theorem lift_eq_ok {x : Except EngineError α} {a : α} {κ κ' : Context Expr} :
    outcome (liftM x : Compilation α) κ = (.ok a, κ') ↔ x = .ok a ∧ κ = κ' := by
  show (x, κ) = (.ok a, κ') ↔ _
  rw [Prod.mk.injEq]

end Compilation

theorem setting_eq_ok {x : Except EngineError α} {f : α → Run γ} {g : α → Compilation δ}
    {c c₁ : Context Value} {κ κ₁ : Context Expr} {y : γ} {z : δ}
    (hm : outcome (liftM x >>= f) c = (.ok y, c₁)) (hd : outcome (liftM x >>= g) κ = (.ok z, κ₁)) :
    ∃ a, x = .ok a ∧ outcome (f a) c = (.ok y, c₁) ∧ outcome (g a) κ = (.ok z, κ₁) := by
  obtain ⟨a, c', ha, hy⟩ := bind_eq_ok.1 hm
  obtain ⟨b, κ', hb, hz⟩ := bind_eq_ok.1 hd
  obtain ⟨hx, rfl⟩ := Run.lift_eq_ok.1 ha
  obtain ⟨hx', rfl⟩ := Compilation.lift_eq_ok.1 hb
  obtain rfl : a = b := Except.ok.inj (hx.symm.trans hx')
  exact ⟨a, hx, hy, hz⟩

/-- Where the run has a result and the compilation too, the two are related, and the run leaves its
context. -/
def Mirrors (c : Context Value) (R : α → β → Prop) (m : Run α) (d : Compilation β) : Prop :=
  ∀ a c₁ κ b κ₁, outcome m c = (.ok a, c₁) → outcome d κ = (.ok b, κ₁) → c₁ = c ∧ R a b

namespace Mirrors

variable {c : Context Value} {R : α → β → Prop} {S : γ → δ → Prop}

theorem pure {a : α} {b : β} (h : R a b) : Mirrors c R (Pure.pure a) (Pure.pure b) := by
  intro a' c₁ κ b' κ₁ hm hd
  obtain ⟨rfl, rfl⟩ := pure_eq_ok.1 hm
  obtain ⟨rfl, -⟩ := pure_eq_ok.1 hd
  exact ⟨rfl, h⟩

theorem bind {m : Run α} {d : Compilation β} {f : α → Run γ} {g : β → Compilation δ}
    (h : Mirrors c R m d) (hf : ∀ a b, R a b → Mirrors c S (f a) (g b)) :
    Mirrors c S (m >>= f) (d >>= g) := by
  intro x c₂ κ y κ₂ hm hd
  obtain ⟨a, c₁, ha, hx⟩ := bind_eq_ok.1 hm
  obtain ⟨b, κ₁, hb, hy⟩ := bind_eq_ok.1 hd
  obtain ⟨rfl, hab⟩ := h a c₁ κ b κ₁ ha hb
  exact hf a b hab x c₂ κ₁ y κ₂ hx hy

theorem imp {S : α → β → Prop} {m : Run α} {d : Compilation β} (h : Mirrors c R m d)
    (hRS : ∀ a b, R a b → S a b) : Mirrors c S m d := by
  intro a c₁ κ b κ₁ hm hd
  obtain ⟨hc, hab⟩ := h a c₁ κ b κ₁ hm hd
  exact ⟨hc, hRS a b hab⟩

theorem lift {x : Except EngineError α} {f : α → Run γ} {g : α → Compilation δ}
    (h : ∀ a, x = .ok a → Mirrors c S (f a) (g a)) : Mirrors c S (liftM x >>= f) (liftM x >>= g) := by
  intro y c₂ κ z κ₂ hm hd
  obtain ⟨a, hx, hy, hz⟩ := setting_eq_ok hm hd
  exact h a hx y c₂ κ z κ₂ hy hz

theorem check {x : Except EngineError α} {f : α → Run γ} {d : Compilation δ}
    (h : ∀ a, x = .ok a → Mirrors c S (f a) d) : Mirrors c S (liftM x >>= f) d := by
  intro y c₂ κ z κ₂ hm hd
  obtain ⟨a, c₁, ha, hy⟩ := bind_eq_ok.1 hm
  obtain ⟨hx, rfl⟩ := Run.lift_eq_ok.1 ha
  exact h a hx y c₂ κ z κ₂ hy hd

theorem checked {x : Except EngineError α} {b : β} (h : ∀ a, x = .ok a → R a b) :
    Mirrors c R (liftM x) (Pure.pure b) := by
  intro a c₁ κ b' κ₁ hm hd
  obtain ⟨hx, rfl⟩ := Run.lift_eq_ok.1 hm
  obtain ⟨rfl, -⟩ := pure_eq_ok.1 hd
  exact ⟨rfl, h a hx⟩

theorem skip {m : Run α} {d : Compilation δ} {g : δ → Compilation β} (h : ∀ b, Mirrors c R m (g b)) :
    Mirrors c R m (d >>= g) := by
  intro y c₂ κ z κ₂ hm hd
  obtain ⟨b, κ₁, -, hz⟩ := bind_eq_ok.1 hd
  exact h b y c₂ κ₁ z κ₂ hm hz

theorem map {m : Run α} {d : Compilation β} {f : α → γ} {g : β → δ} (h : Mirrors c R m d)
    (hf : ∀ a b, R a b → S (f a) (g b)) :
    Mirrors c S (m >>= fun a => Pure.pure (f a)) (d >>= fun b => Pure.pure (g b)) :=
  h.bind fun a b hab => .pure (hf a b hab)

end Mirrors

def Denotes (names : List String) (s : Scopes Value) (e : Expr) (w : Target.Value) : Prop :=
  ∀ σ, Agrees names s σ → e.eval σ = some (w, σ)

def DenotesAll (names : List String) (s : Scopes Value) (es : List Expr) (ws : List Target.Value) :
    Prop :=
  ∀ σ, Agrees names s σ → evalAll es σ = some (ws, σ)

namespace DenotesAll

variable {names : List String} {s : Scopes Value} {e l r : Expr} {v w : Target.Value}
  {es : List Expr} {ws : List Target.Value}

theorem nil : DenotesAll names s [] [] := fun _ _ => rfl

theorem cons (h : Denotes names s e v) (hrest : DenotesAll names s es ws) :
    DenotesAll names s (e :: es) (v :: ws) := by
  intro σ hσ
  rw [evalAll, h σ hσ]
  show ((evalAll es σ).bind _) = _
  rw [hrest σ hσ]
  rfl

theorem one (h : Denotes names s e v) : DenotesAll names s [e] [v] := .cons h .nil

theorem two (hl : Denotes names s l v) (hr : Denotes names s r w) :
    DenotesAll names s [l, r] [v, w] := .cons hl (.one hr)

end DenotesAll

namespace Denotes

variable {names : List String} {s : Scopes Value} {e l r t : Expr} {v w : Target.Value}

theorem unary (op : UnaryOp) (h : Denotes names s e v) : Denotes names s (.unary op e) (op.apply v) :=
  fun σ hσ => eval_unary op (h σ hσ)

theorem binary {op : BinaryOp} (hl : Denotes names s l v) (hr : Denotes names s r w)
    (hop : op.decides v = false) : Denotes names s (.binary op l r) (op.apply v w) :=
  fun σ hσ => eval_binary (hl σ hσ) hop (hr σ hσ)

theorem decided {op : BinaryOp} (hl : Denotes names s l v) (hop : op.decides v = true) :
    Denotes names s (.binary op l r) v :=
  fun σ hσ => eval_decided (hl σ hσ) hop

theorem conditional_true (h : Denotes names s e v) (hv : v.truthy = true) (hl : Denotes names s l w) :
    Denotes names s (.conditional e l r) w := by
  intro σ hσ
  rw [eval_conditional (h σ hσ), if_pos hv]
  exact hl σ hσ

theorem conditional_false (h : Denotes names s e v) (hv : v.truthy = false) (hr : Denotes names s r w) :
    Denotes names s (.conditional e l r) w := by
  intro σ hσ
  rw [eval_conditional (h σ hσ), hv]
  exact hr σ hσ

theorem call {function : String} {args : List Expr} {vs : List Target.Value}
    (hargs : DenotesAll names s args vs) (hcall : callHelper? function vs = some w) :
    Denotes names s (.call function args) w := by
  intro σ hσ
  rw [Expr.eval, hargs σ hσ]
  show (callHelper? function vs >>= fun w => some (w, σ)) = _
  rw [hcall]
  rfl

theorem list {items : List Expr} {vs : List Target.Value} (h : DenotesAll names s items vs) :
    Denotes names s (.list items) (.list vs) := by
  intro σ hσ
  rw [Expr.eval, h σ hσ]
  rfl

theorem toText (h : Denotes names s e v) : Denotes names s e.toText (.text v.display) :=
  .call (.one h) rfl

theorem method {name : String} (h : Denotes names s e v) (hmethod : callMethod? name [] v = some w) :
    Denotes names s (.method e name []) w := by
  intro σ hσ
  rw [Expr.eval, h σ hσ]
  show (callMethod? name [] v >>= fun w => some (w, σ)) = _
  rw [hmethod]
  rfl

theorem member {property : String} (h : Denotes names s e v) (hmember : member? property v = some w) :
    Denotes names s (.member e property) w := by
  intro σ hσ
  rw [Expr.eval, h σ hσ]
  show (member? property v >>= fun w => some (w, σ)) = _
  rw [hmember]
  rfl

theorem get {c : Context Value} {name : String} (hname : name ∈ names) :
    Denotes names c.scopes (.variable name) ((c.get? name).getD .null).target := by
  intro σ hσ
  obtain ⟨v, hv, hw⟩ := hσ.get hname
  rw [Context.get?_scopes] at hv
  rw [Expr.eval, hv, hw]
  rfl

end Denotes

/-! ### Slots -/

def Code.Denotes (names : List String) (s : Scopes Value) (v : Value) : Code → Prop
  | .expression e => Blockwork.Denotes names s e v.target
  | .statements _ => False

def Computes (names : List String) (c : Context Value) (v : Value) (e : Expr) : Prop :=
  Denotes names c.scopes e v.target

variable {names : List String} {c : Context Value} {limit : Nat} {b : Block Kind}

theorem Mirrors.expression {m : Run Value} {d : Compilation Expr}
    (h : Mirrors c (Computes names c) m d) :
    Mirrors c (Code.Denotes names c.scopes) m (d >>= fun e => Pure.pure (.expression e)) := by
  rw [← bind_pure m]
  exact h.map fun _ _ he => he

theorem Parts.value_eq_ok {p : Parts α} {name : String} {plug : Plug α} :
    p.value name = .ok plug ↔ p.values.lookup name = some plug := by
  unfold Parts.value
  cases p.values.lookup name <;> simp

def Block.slot? (b : Block Kind) (name : String) : Option (Socket Kind) :=
  (b.values.map fun s => (s.name, s)).lookup name

theorem Block.lookup_slot {α : Type} (b : Block Kind) (f : Socket Kind → α) (name : String) :
    (b.values.map fun s => (s.name, f s)).lookup name = (b.slot? name).map f := by
  unfold Block.slot?
  obtain ⟨hread, hslot⟩ | ⟨s, -, -, hread, hslot⟩ := lookup_sockets b.values f (fun s => s) name
  · rw [hread, hslot]
    rfl
  · rw [hread, hslot]
    rfl

theorem Block.mem_of_slot {name : String} {s : Socket Kind} (h : b.slot? name = some s) :
    s ∈ b.values ∧ s.name = name := by
  obtain ⟨t, ht, heq⟩ := List.mem_map.1 (mem_of_lookup h)
  obtain ⟨hname, rfl⟩ := Prod.mk.inj heq
  exact ⟨ht, hname⟩

theorem plug_eq_ok {name : String} {plug : Plug (Run Value)} {plug' : Plug SlotCode}
    (hplug : (b.runParts limit).value name = .ok plug) (hplug' : b.codeParts.value name = .ok plug') :
    ∃ s, b.slot? name = some s ∧ plug = ⟨!s.chain.isEmpty, evaluateChain limit s.chain⟩ ∧
      plug' = ⟨!s.chain.isEmpty, ⟨compileExpression s.chain, compileChain s.chain⟩⟩ := by
  rw [Parts.value_eq_ok, Block.values_runParts, Block.lookup_slot] at hplug
  rw [Parts.value_eq_ok, Block.values_codeParts, Block.lookup_slot] at hplug'
  obtain ⟨s, hslot, rfl⟩ := Option.map_eq_some_iff.1 hplug
  rw [hslot] at hplug'
  exact ⟨s, hslot, rfl, (Option.some.inj hplug').symm⟩

theorem mirrors_slot {name : String} {R : Socket Kind → Value → Expr → Prop}
    (h : ∀ s ∈ b.values, s.name = name →
      Mirrors c (R s) (evaluateChain limit s.chain) (compileExpression s.chain)) :
    Mirrors c (fun plug plug' => ∃ s ∈ b.values, s.name = name ∧ b.slot? name = some s ∧
      plug.filled = plug'.filled ∧ Mirrors c (R s) plug.meaning plug'.meaning.expression)
      (liftM ((b.runParts limit).value name)) (liftM (b.codeParts.value name)) := by
  intro plug c₁ κ plug' κ₁ hm hd
  obtain ⟨hplug, rfl⟩ := Run.lift_eq_ok.1 hm
  obtain ⟨hplug', rfl⟩ := Compilation.lift_eq_ok.1 hd
  obtain ⟨s, hslot, rfl, rfl⟩ := plug_eq_ok hplug hplug'
  obtain ⟨hs, hname⟩ := Block.mem_of_slot hslot
  exact ⟨rfl, s, hs, hname, hslot, rfl, h s hs hname⟩

theorem mirrors_plug {name : String} {R : Value → Expr → Prop}
    (h : ∀ s ∈ b.values, s.name = name →
      Mirrors c R (evaluateChain limit s.chain) (compileExpression s.chain)) :
    Mirrors c (fun plug plug' => plug.filled = plug'.filled ∧
      Mirrors c R plug.meaning plug'.meaning.expression)
      (liftM ((b.runParts limit).value name)) (liftM (b.codeParts.value name)) :=
  (mirrors_slot h).imp fun _ _ ⟨_, _, _, _, hfilled, hmeaning⟩ => ⟨hfilled, hmeaning⟩

section

variable (hslots : ∀ s ∈ b.values,
  Mirrors c (Computes names c) (evaluateChain limit s.chain) (compileExpression s.chain))

include hslots

theorem mirrors_evaluate (name : String) :
    Mirrors c (Computes names c) ((b.runParts limit).evaluate name) (b.codeParts.compile name) :=
  (mirrors_plug fun s hs _ => hslots s hs).bind fun _ _ h => h.2

theorem mirrors_checked (name : String) {x : Value → Except EngineError α} {R : α → Expr → Prop}
    (h : ∀ v e, Computes names c v e → ∀ a, x v = .ok a → R a e) :
    Mirrors c R ((b.runParts limit).evaluate name >>= fun v => liftM (x v))
      (b.codeParts.compile name) := by
  intro a c₂ κ e κ₁ hm hd
  obtain ⟨v, c₁, hv, ha⟩ := bind_eq_ok.1 hm
  obtain ⟨hx, rfl⟩ := Run.lift_eq_ok.1 ha
  obtain ⟨rfl, he⟩ := mirrors_evaluate hslots name v c₁ κ e κ₁ hv hd
  exact ⟨rfl, h v e he a hx⟩

theorem mirrors_number (name : String) :
    Mirrors c (fun x e => Denotes names c.scopes e (.number x))
      ((b.runParts limit).evaluateNumber name) (b.codeParts.compile name) := by
  refine mirrors_checked hslots name fun v e he x hx => ?_
  obtain rfl := Value.asNumber_eq_ok.1 hx
  exact he

theorem mirrors_condition (name : String) :
    Mirrors c (fun decided e => ∃ w, Denotes names c.scopes e w ∧ w.truthy = decided)
      ((b.runParts limit).evaluateCondition name) (b.codeParts.compile name) :=
  mirrors_checked hslots name fun v _ he _ hx => ⟨v.target, he, Value.truthy_of_asCondition hx⟩

theorem mirrors_text (name : String) :
    Mirrors c (fun t e => Denotes names c.scopes e (.text t))
      ((b.runParts limit).evaluateText name) (b.codeParts.compileText name) := by
  refine (mirrors_evaluate hslots name).map fun v e he => ?_
  rw [← Value.display_target]
  exact Denotes.toText he

end

end Blockwork
