import Blockwork.Proofs.Compiler.Absence
import Blockwork.Proofs.Compiler.Assignments

/-! Programs that no host gives values. Their variables are undefined until they are assigned, where a
run has null. What is known of each variable is carried along the blocks; the two backends agree on
programs that use a value only where enough is known of it. -/

namespace Blockwork

open Target

/-- The store in which no declared variable has a value. -/
def Target.Program.start (program : Program) : Store :=
  program.declared.map fun name => (name, .undefined)

/-! ### What is known of values -/

def Presence.of (env : Entries Presence) (name : String) : Presence := (env.get? name).getD .unknown

namespace Kind

def isBasic : Kind → Bool
  | .boolean | .null | .compare | .number | .text | .join | .append | .textLength | .textIsEmpty
  | .get | .set | .createList => true
  | _ => false

/-- The kinds that tell null from undefined by the text of a slot. -/
def shows : Kind → Bool
  | .join | .append | .textLength => true
  | _ => false

def presence (env : Entries Presence) (p : Parts Presence) : Kind → Presence
  | .get => match p.variable with
    | .ok name => .of env name
    | .error _ => .unknown
  | .createList => if p.values.all (·.2.meaning.isExact) then .exact else .present
  | .null => .exact
  | .boolean | .number | .text | .join | .textLength | .textIsEmpty | .compare => .plain
  | _ => .unknown

def presencesAfter (env : Entries Presence) (p : Parts Presence) : Kind → Entries Presence
  | .set => match p.variable, p.value "VALUE" with
    | .ok name, .ok plug => env.put name plug.meaning
    | _, _ => env
  | .append => match p.variable with
    | .ok name => env.put name .plain
    | .error _ => env
  | _ => env

end Kind

section

variable (env : Entries Presence)

mutual

def Block.presence : Block Kind → Presence
  | ⟨kind, tag, id, fields, values, _, mutations, _⟩ =>
    kind.presence env { tag, id, fields, mutations, values := slotPresences values, statements := [] }

def slotPresences : List (Socket Kind) → List (String × Plug Presence)
  | [] => []
  | ⟨name, chain⟩ :: rest => (name, ⟨!chain.isEmpty, chainPresence chain⟩) :: slotPresences rest

def chainPresence : List (Block Kind) → Presence
  | [] => .exact
  | b :: _ => b.presence

end

def Block.presenceParts (b : Block Kind) : Parts Presence :=
  { tag := b.tag
    id := b.id
    fields := b.fields
    mutations := b.mutations
    values := slotPresences env b.values
    statements := [] }

/-- Of what a basic block shows or compares with null enough is known, so that nobody can tell which
null it is. -/
structure Block.Steady (b : Block Kind) : Prop where
  basic : b.kind.isBasic = true
  values : ∀ s ∈ b.values, holdsValue s.chain = true
  shown : b.kind.shows = true → ∀ s ∈ b.values, chainPresence env s.chain ≠ .unknown
  compared : b.kind = .compare → b.fields.get? "OP" = some "EQ" ∨ b.fields.get? "OP" = some "NEQ" →
    ∀ s ∈ b.values, ∀ t ∈ b.values, s.name = "A" → t.name = "B" →
      (chainPresence env s.chain).comparable (chainPresence env t.chain) = true

instance : DecidablePred (Block.Steady env) := fun b =>
  decidable_of_iff (b.kind.isBasic = true ∧ (∀ s ∈ b.values, holdsValue s.chain = true) ∧
      (b.kind.shows = true → ∀ s ∈ b.values, chainPresence env s.chain ≠ .unknown) ∧
      (b.kind = .compare → b.fields.get? "OP" = some "EQ" ∨ b.fields.get? "OP" = some "NEQ" →
        ∀ s ∈ b.values, ∀ t ∈ b.values, s.name = "A" → t.name = "B" →
          (chainPresence env s.chain).comparable (chainPresence env t.chain) = true))
    ⟨fun ⟨h₁, h₂, h₃, h₄⟩ => ⟨h₁, h₂, h₃, h₄⟩, fun h => ⟨h.basic, h.values, h.shown, h.compared⟩⟩

end

def Steadily (env : Entries Presence) : List (Block Kind) → Prop
  | [] => True
  | b :: rest =>
    b.All (Block.Steady env) ∧ Steadily (b.kind.presencesAfter env (b.presenceParts env)) rest

def Steadily.decide (env : Entries Presence) :
    (chain : List (Block Kind)) → Decidable (Steadily env chain)
  | [] => .isTrue trivial
  | b :: rest =>
    have := Block.decideAll (P := Block.Steady env) b
    have := Steadily.decide (b.kind.presencesAfter env (b.presenceParts env)) rest
    inferInstanceAs (Decidable (b.All (Block.Steady env) ∧ Steadily _ rest))

instance (env : Entries Presence) (chain : List (Block Kind)) : Decidable (Steadily env chain) :=
  Steadily.decide env chain

variable {env : Entries Presence} {limit : Nat} {b : Block Kind} {c c₁ : Context Value} {σ : Store}

theorem Block.presence_eq (b : Block Kind) :
    b.presence env = b.kind.presence env (b.presenceParts env) := by
  cases b
  rfl

theorem slotPresences_eq (sockets : List (Socket Kind)) : slotPresences env sockets =
    sockets.map fun s => (s.name, ⟨!s.chain.isEmpty, chainPresence env s.chain⟩) := by
  induction sockets with
  | nil => rfl
  | cons s rest ih =>
    obtain ⟨name, chain⟩ := s
    rw [List.map_cons, ← ih]
    rfl

/-! ### Stores -/

theorem Context.get?_root (root : Scope Value) (name : String) :
    (⟨[], root⟩ : Context Value).get? name = root.bindings.get? name := by
  have hcurrent : (⟨[], root⟩ : Context Value).current = root := rfl
  rw [Context.get?, hcurrent]
  cases root.bindings.get? name <;> rfl

/-- In the store every variable has a value that fits what is known of it. There is one scope. -/
structure Fitted (env : Entries Presence) (c : Context Value) (σ : Store) : Prop where
  inner : c.inner = []
  quiet : c.escape = .none
  fits : ∀ name, (Presence.of env name).Fits ((c.get? name).getD .null)
    ((σ.get? name).getD .undefined)

namespace Fitted

theorem setEscape (h : Fitted env c σ) : Fitted env (c.setEscape .none) σ := by
  obtain ⟨inner, root⟩ := c
  obtain rfl : inner = [] := h.inner
  exact ⟨rfl, rfl, h.fits⟩

theorem set (h : Fitted env c σ) {p : Presence} {name : String} {v : Value} {w : Target.Value}
    (hfits : p.Fits v w) : Fitted (env.put name p) (c.set name v) (σ.put name w) := by
  obtain ⟨inner, root⟩ := c
  obtain rfl : inner = [] := h.inner
  have hset : (⟨[], root⟩ : Context Value).set name v =
      ⟨[], { root with bindings := root.bindings.put name v }⟩ := by
    unfold Context.set
    exact (ite_congr rfl (fun _ => rfl) fun _ => ite_self _).trans (ite_self _)
  rw [hset]
  refine ⟨rfl, h.quiet, fun other => ?_⟩
  by_cases hother : other = name
  · subst hother
    rw [Context.get?_root, Presence.of, Entries.get?_put_self, Entries.get?_put_self, Entries.get?_put_self]
    exact hfits
  · have hold := h.fits other
    rw [Context.get?_root] at hold ⊢
    rw [Presence.of, Entries.get?_put_of_ne _ _ hother, Entries.get?_put_of_ne _ _ hother,
      Entries.get?_put_of_ne _ _ hother]
    exact hold

end Fitted

/-! ### Expressions -/

def Stands (σ : Store) (p : Presence) (v : Value) (e : Expr) : Prop :=
  ∃ w, e.eval σ = some (w, σ) ∧ p.Fits v w

def Code.Stands (σ : Store) (p : Presence) (v : Value) : Code → Prop
  | .expression e => Blockwork.Stands σ p v e
  | .statements _ => False

theorem Stands.plain {v : Value} {e : Expr} (h : e.eval σ = some (v.target, σ))
    (hv : v.isPlain = true) : Stands σ .plain v e := ⟨v.target, h, rfl, hv⟩

theorem eval_toText {e : Expr} {w : Target.Value} (h : e.eval σ = some (w, σ)) :
    e.toText.eval σ = some (.text w.display, σ) := by
  show (evalAll [e] σ >>= fun r => callHelper? "String" r.1 >>= fun w => some (w, r.2)) = _
  rw [evalAll, h]
  rfl

theorem eval_length {e : Expr} {t : String} (h : e.eval σ = some (.text t, σ)) :
    (Expr.member e "length").eval σ = some (.number (Float.ofNat (Text.unitCount t.toList)), σ) := by
  show (e.eval σ >>= fun r => member? "length" r.1 >>= fun w => some (w, r.2)) = _
  rw [h]
  rfl

theorem eval_hasNoLength {e : Expr} {t : String} (h : e.eval σ = some (.text t, σ)) :
    (hasNoLength e).eval σ = some (.boolean t.isEmpty, σ) := by
  have hzero := eval_binary (eval_length h) (rfl : BinaryOp.equal.decides _ = false) (eval_num 0 σ)
  rw [Text.isEmpty_eq, ← Number.ofNat_beq_zero]
  exact hzero

structure Sums (σ : Store) (ts : List String) (es : List Expr) : Prop where
  code : (joinCode es).eval σ = some (.text (String.join ts), σ)
  onto : ∀ (t : String) (e : Expr), e.eval σ = some (.text t, σ) →
    (es.foldl (.binary .add) e).eval σ = some (.text (t ++ String.join ts), σ)

theorem Sums.nil : Sums σ [] [] :=
  ⟨rfl, fun t e h => by rw [String.join_nil, String.append_empty]; exact h⟩

theorem Sums.skip {ts : List String} {es : List Expr} (h : Sums σ ts es) : Sums σ ("" :: ts) es := by
  have hjoin : String.join ("" :: ts) = String.join ts := by
    rw [String.join_cons, String.empty_append]
  exact ⟨hjoin ▸ h.code, hjoin ▸ h.onto⟩

theorem Sums.cons {t : String} {e : Expr} {ts : List String} {es : List Expr}
    (he : e.eval σ = some (.text t, σ)) (h : Sums σ ts es) : Sums σ (t :: ts) (e :: es) := by
  refine ⟨?_, fun t' e' he' => ?_⟩
  · rw [String.join_cons]
    exact h.onto t e he
  · rw [String.join_cons, ← String.append_assoc]
    exact h.onto (t' ++ t) _ (eval_binary he' rfl he)

/-! ### Slots -/

theorem Block.value_presenceParts {name : String} {s : Socket Kind} (h : b.slot? name = some s) :
    (b.presenceParts env).value name = .ok ⟨!s.chain.isEmpty, chainPresence env s.chain⟩ := by
  rw [Parts.value_eq_ok, Block.presenceParts, slotPresences_eq, Block.lookup_slot, h]
  rfl

section

variable (hslots : ∀ s ∈ b.values, Mirrors c (Stands σ (chainPresence env s.chain))
  (evaluateChain limit s.chain) (compileExpression s.chain))

include hslots

theorem mirrors_standing (name : String) :
    Mirrors c (fun v e => ∃ s ∈ b.values, s.name = name ∧ b.slot? name = some s ∧
      Stands σ (chainPresence env s.chain) v e)
      ((b.runParts limit).evaluate name) (b.codeParts.compile name) := by
  refine (mirrors_slot fun s hs _ => hslots s hs).bind fun plug plug' h => ?_
  obtain ⟨s, hs, hname, hslot, -, hmeaning⟩ := h
  exact hmeaning.imp fun v e he => ⟨s, hs, hname, hslot, he⟩

/-! ### Texts -/

theorem mirrors_display (name : String) :
    Mirrors c (fun t e => ∃ t', e.eval σ = some (.text t', σ) ∧ t'.isEmpty = t.isEmpty ∧
        ((∀ s ∈ b.values, chainPresence env s.chain ≠ .unknown) → t' = t))
      ((b.runParts limit).evaluateText name) (b.codeParts.compileText name) := by
  refine (mirrors_standing hslots name).map fun v e h => ?_
  obtain ⟨s, hs, -, -, w, hw, hfits⟩ := h
  exact ⟨w.display, eval_toText hw, hfits.isEmpty_display, fun hshown => hfits.display (hshown s hs)⟩

theorem mirrors_sums (hshown : ∀ s ∈ b.values, chainPresence env s.chain ≠ .unknown)
    (slots : List Nat) :
    Mirrors c (Sums σ) (slots.mapM fun i => (b.runParts limit).joinedText (numbered "ADD" i))
      (b.codeParts.compileFilled (slots.map (numbered "ADD"))) := by
  induction slots with
  | nil => exact .pure .nil
  | cons i rest ih =>
    rw [List.mapM_cons, Parts.joinedText, bind_assoc, List.map_cons, Parts.compileFilled]
    refine (mirrors_slot fun s hs _ => hslots s hs).bind fun plug plug' h => ?_
    obtain ⟨filled, meaning⟩ := plug
    obtain ⟨filled', meaning'⟩ := plug'
    obtain ⟨s, hs, -, -, hfilled, hmeaning⟩ := h
    obtain rfl : filled = filled' := hfilled
    cases filled with
    | true =>
      show Mirrors c _ ((meaning >>= fun v => pure v.display) >>= _) (meaning'.expression >>= _)
      rw [bind_assoc]
      refine hmeaning.bind fun v e he => ?_
      obtain ⟨w, hw, hfits⟩ := he
      rw [pure_bind, ← hfits.display (hshown s hs)]
      exact ih.map fun ts es hes => .cons (eval_toText hw) hes
    | false =>
      show Mirrors c _ (pure "" >>= _) (b.codeParts.compileFilled _)
      rw [pure_bind, ← bind_pure (b.codeParts.compileFilled _)]
      exact ih.map fun ts es hes => .skip hes

/-! ### Lists -/

theorem mirrors_listed (slots : List Nat) :
    Mirrors c (fun items es => ∃ ws, evalAll es σ = some (ws, σ) ∧ Target.Value.runtimes ws = items ∧
        ((∀ s ∈ b.values, (chainPresence env s.chain).isExact = true) → ws = Value.targets items))
      ((b.runParts limit).evaluateItems (slots.map (numbered "ADD")))
      (slots.mapM fun i => b.codeParts.compile (numbered "ADD" i)) := by
  induction slots with
  | nil => exact .pure ⟨[], rfl, rfl, fun _ => rfl⟩
  | cons i rest ih =>
    rw [Parts.evaluateItems, List.map_cons, List.mapM_cons, List.mapM_cons]
    refine (mirrors_standing hslots _).bind fun v e he => ih.map fun items es hes => ?_
    obtain ⟨s, hs, -, -, w, hw, hfits⟩ := he
    obtain ⟨ws, hws, hruntimes, hexact⟩ := hes
    refine ⟨w :: ws, ?_, ?_, fun hall => ?_⟩
    · rw [evalAll, hw]
      show (evalAll es σ >>= fun r => some (w :: r.1, r.2)) = _
      rw [hws]
      rfl
    · show w.runtime :: Target.Value.runtimes ws = v :: items
      rw [hfits.runtime, hruntimes]
    · show w :: ws = v.target :: Value.targets items
      rw [hfits.eq_target (hall s hs), hexact hall]

/-! ### Kinds -/

theorem mirrors_steadyCompare (hb : b.Steady env) (hkind : b.kind = .compare) :
    Mirrors c (Code.Stands σ .plain) (Kind.compare.evaluate limit (b.runParts limit))
      (Kind.compare.compile b.codeParts) := by
  refine .lift fun comparison hcomparison => ?_
  refine (mirrors_standing hslots "A").bind fun v l hl => ?_
  refine (mirrors_standing hslots "B").bind fun v' r hr => .check fun decided hdecided => .pure ?_
  obtain ⟨s, hs, hA, -, w, hw, hfits⟩ := hl
  obtain ⟨t, ht, hB, -, w', hw', hfits'⟩ := hr
  obtain ⟨text, hfield, hlookup⟩ := Parts.option_eq_ok.1 hcomparison
  have hfield : b.fields.get? "OP" = some text := hfield
  have hop : comparison.operator.decides w = false := by cases comparison <;> rfl
  refine .plain ((eval_binary hw hop hw').trans ?_) rfl
  refine congrArg (fun w => some (w, σ)) (hfits.holds hfits' (fun hequality => ?_) hdecided)
  refine hb.compared hkind ?_ s hs t ht hA hB
  rw [hfield]
  have hmem := mem_of_lookup hlookup
  obtain rfl | rfl := hequality
  · exact .inl (by simpa [Comparison.options] using hmem)
  · exact .inr (by simpa [Comparison.options] using hmem)

theorem mirrors_steadyList :
    Mirrors c (Code.Stands σ (Kind.createList.presence env (b.presenceParts env)))
      (Kind.createList.evaluate limit (b.runParts limit)) (Kind.createList.compile b.codeParts) := by
  refine .lift fun count _ => (mirrors_listed hslots _).map fun items es h => ?_
  obtain ⟨ws, hws, hruntimes, hexact⟩ := h
  have heval : (Expr.list es).eval σ = some (.list ws, σ) := by
    show (evalAll es σ >>= fun r => some (Target.Value.list r.1, r.2)) = _
    rw [hws]
    rfl
  refine ⟨.list ws, heval, ?_⟩
  rw [Kind.presence]
  split
  · rename_i hall
    rw [Block.presenceParts, slotPresences_eq, List.all_map, List.all_eq_true] at hall
    exact congrArg Target.Value.list (hexact hall)
  · exact ⟨congrArg Value.list hruntimes, nofun⟩

theorem mirrors_steadyKind (hb : b.Steady env) (hvalue : b.kind.isValue = true)
    (hσ : Fitted env c σ) :
    Mirrors c (Code.Stands σ (b.presence env)) (b.kind.evaluate limit (b.runParts limit))
      (b.kind.compile b.codeParts) := by
  rw [b.presence_eq]
  have hbasic := hb.basic
  have hshown := hb.shown
  cases hkind : b.kind with
  | boolean => exact .lift fun _ _ => .pure (Stands.plain rfl rfl)
  | null => exact .pure ⟨.null, rfl, rfl⟩
  | compare => exact mirrors_steadyCompare hslots hb hkind
  | number => exact .lift fun _ _ => .lift fun _ _ => .pure (Stands.plain rfl rfl)
  | text => exact .lift fun _ _ => .pure (Stands.plain rfl rfl)
  | join =>
    refine .lift fun count _ => (mirrors_sums hslots (hshown (by rw [hkind]; rfl)) _).map ?_
    exact fun _ _ h => Stands.plain h.code rfl
  | textLength =>
    refine (mirrors_display hslots "VALUE").map fun t e h => ?_
    obtain ⟨t', he, -, heq⟩ := h
    obtain rfl := heq (hshown (by rw [hkind]; rfl))
    exact Stands.plain (eval_length he) rfl
  | textIsEmpty =>
    refine (mirrors_display hslots "VALUE").map fun t e h => ?_
    obtain ⟨t', he, hempty, -⟩ := h
    have heval := eval_hasNoLength he
    rw [hempty] at heval
    exact Stands.plain heval rfl
  | get =>
    refine .lift fun name hname => ?_
    intro v c₁ κ code κ₁ hm hd
    obtain ⟨hv, rfl⟩ := Prod.mk.inj hm
    obtain rfl := Except.ok.inj hv
    obtain ⟨rfl, -⟩ := pure_eq_ok.1 hd
    have hname : (b.presenceParts env).variable = .ok name := hname
    refine ⟨rfl, _, rfl, ?_⟩
    rw [Kind.presence, hname]
    exact hσ.fits name
  | createList => exact mirrors_steadyList hslots
  | set | append =>
    rw [hkind] at hvalue
    exact absurd hvalue Bool.false_ne_true
  | _ =>
    rw [hkind] at hbasic
    exact absurd hbasic Bool.false_ne_true

end

theorem mirrors_steadyChain {chain : List (Block Kind)} (hσ : Fitted env c σ)
    (hsteady : Block.AllOf (Block.Steady env) chain) (hvalue : holdsValue chain = true) :
    Mirrors c (Stands σ (chainPresence env chain)) (evaluateChain limit chain)
      (compileExpression chain) := by
  revert hsteady hvalue
  refine Block.chain_induction
    (P := fun b => b.All (Block.Steady env) → b.kind.isValue = true →
      Mirrors c (Code.Stands σ (b.presence env)) (b.evaluate limit) b.compile)
    (Q := fun chain => Block.AllOf (Block.Steady env) chain → holdsValue chain = true →
      Mirrors c (Stands σ (chainPresence env chain)) (evaluateChain limit chain)
        (compileExpression chain))
    ?_ ?_ ?_ chain
  · intro b hvalues _ hall hkind
    obtain ⟨hb, hslots, -⟩ := Block.all_iff.1 hall
    rw [Block.evaluate_eq, Block.compile_eq]
    exact mirrors_steadyKind (fun s hs => hvalues s hs (hslots s hs) (hb.values s hs)) hb hkind hσ
  · exact fun _ _ => .pure ⟨.null, rfl, rfl⟩
  · intro b rest hb _ hall hvalue
    match rest, hvalue with
    | [], hkind =>
      have hrun : evaluateChain limit [b] = b.evaluate limit >>= pure := rfl
      rw [hrun]
      refine (hb hall.1 hkind).bind fun v code hcode => ?_
      cases code with
      | expression e => exact .pure hcode
      | statements body => exact absurd hcode id

end Blockwork
