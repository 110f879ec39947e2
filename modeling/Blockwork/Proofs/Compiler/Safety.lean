import Blockwork.Proofs.Compiler.Values

/-! Compilation checks the settings of a program. It reads every setting and slot that some run may
read, so the runs of a program that compiles fail only by the values they come upon. -/

namespace Blockwork

open Target

variable {α β γ δ : Type}

/-- The errors that the values of a run cause, and not the settings of its blocks. -/
inductive EngineError.OfValues : EngineError → Prop
  | mismatch (expected got : String) : OfValues (.mismatch expected got)
  | listTooLong {length : Float} (h : length > Float.ofNat longestList) :
    OfValues (.unsupported (.listTooLong length))

def Lenient (x : Except EngineError α) : Prop := ∀ e, x = .error e → e.OfValues

def Safe (m : Run α) : Prop := ∀ c e c', outcome m c = (.error (.error e), c') → e.OfValues

/-- If the compilation has a result, the run is safe. -/
def Checks (d : Compilation α) (m : Run β) : Prop :=
  ∀ κ a κ', outcome d κ = (.ok a, κ') → Safe m

theorem lenient_asCondition (v : Value) : Lenient v.asCondition := by
  intro e h
  cases v <;> cases h <;> constructor

theorem lenient_asNumber (v : Value) : Lenient v.asNumber := by
  intro e h
  cases v <;> cases h <;> constructor

theorem lenient_asList (v : Value) : Lenient v.asList := by
  intro e h
  cases v <;> cases h <;> constructor

theorem lenient_holds (comparison : Comparison) (v w : Value) : Lenient (comparison.holds v w) := by
  have horder : Lenient (Order.ofValues v w) := by
    intro e h
    unfold Order.ofValues at h
    split at h <;> cases h
    constructor
  have hmap : ∀ f : Order → Bool, Lenient ((Order.ofValues v w).map f) := by
    intro f e h
    cases ho : Order.ofValues v w with
    | ok o =>
      rw [ho] at h
      cases h
    | error e' =>
      rw [ho] at h
      cases h
      exact horder e ho
  cases comparison with
  | equal | notEqual => exact fun _ h => by cases h
  | less | lessOrEqual | greater | greaterOrEqual => exact hmap _

theorem lenient_repeatValue (item : Value) (count : Float) : Lenient (repeatValue item count) := by
  intro e h
  unfold repeatValue at h
  split at h
  · cases h
    constructor
  · split at h
    · cases h
      exact .listTooLong ‹_›
    · cases h

namespace Safe

variable {m : Run α} {f : α → Run β}

theorem of_ok (h : ∀ c, ∃ a c', outcome m c = (.ok a, c')) : Safe m := by
  intro c e c' he
  obtain ⟨a, c₁, hok⟩ := h c
  rw [hok] at he
  cases he

theorem pure (a : α) : Safe (Pure.pure a : Run α) := of_ok fun c => ⟨a, c, rfl⟩

theorem get (name : String) : Safe (Run.get name) := of_ok fun _ => ⟨_, _, rfl⟩

theorem set (name : String) (v : Value) : Safe (Run.set name v) := of_ok fun _ => ⟨_, _, rfl⟩

theorem bind (hm : Safe m) (hf : ∀ a, Safe (f a)) : Safe (m >>= f) := by
  intro c e c' h
  rw [outcome_bind] at h
  cases hout : outcome m c with
  | mk result c₁ =>
    rw [hout] at h
    cases result with
    | error halt =>
      cases h
      exact hm c e _ hout
    | ok a => exact hf a c₁ e c' h

theorem map {g : α → β} (hm : Safe m) : Safe (m >>= fun a => Pure.pure (g a)) :=
  hm.bind fun _ => .pure _

theorem lift {x : Except EngineError α} (h : Lenient x) : Safe (liftM x : Run α) := by
  intro c e c' he
  rw [Run.outcome_lift] at he
  cases x with
  | ok a => cases he
  | error e' =>
    cases he
    exact h e rfl

theorem ite {p : Prop} [Decidable p] {m' : Run α} (h : Safe m) (h' : Safe m') :
    Safe (if p then m else m') := by
  split
  · exact h
  · exact h'

theorem inBranch (h : Safe m) : Safe (Traversal.inBranch m) := by
  intro c e c' he
  rw [Traversal.outcome_inBranch] at he
  exact h c.push e _ (Prod.ext (Prod.mk.inj he).1 rfl)

theorem inLoop (h : Safe m) : Safe (Traversal.inLoop m) := by
  intro c e c' he
  rw [Traversal.outcome_inLoop] at he
  exact h c.push e _ (Prod.ext (Prod.mk.inj he).1 rfl)

theorem iterate {σ : Type} {step : σ → Run (Option σ)} (h : ∀ s, Safe (step s)) (limit : Nat)
    (s : σ) : Safe (Run.iterate step limit s) := by
  induction limit generalizing s with
  | zero =>
    intro c e c' he
    cases he
  | succ limit ih =>
    intro c e c' he
    rw [Run.outcome_iterate_succ] at he
    split at he
    · exact ih _ _ e c' he
    · cases he
    · cases he
      exact h s c e c' ‹_›

end Safe

namespace Checks

variable {d : Compilation α} {m : Run β} {g : α → Compilation γ} {f : β → Run δ}

theorem of_safe (h : Safe m) : Checks d m := fun _ _ _ _ => h

theorem imp {n : Run δ} (h : Checks d m) (hmn : Safe m → Safe n) : Checks d n :=
  fun κ a κ' hd => hmn (h κ a κ' hd)

theorem bind (h : Checks d m) (hf : ∀ a b, Checks (g a) (f b)) : Checks (d >>= g) (m >>= f) := by
  intro κ c κ₂ hd
  obtain ⟨a, κ₁, ha, hc⟩ := bind_eq_ok.1 hd
  exact (h κ a κ₁ ha).bind fun b => hf a b κ₁ c κ₂ hc

theorem first (h : Checks d m) : Checks (d >>= g) m := by
  intro κ c κ₂ hd
  obtain ⟨a, κ₁, ha, -⟩ := bind_eq_ok.1 hd
  exact h κ a κ₁ ha

theorem skip (h : ∀ a, Checks (g a) m) : Checks (d >>= g) m := by
  intro κ c κ₂ hd
  obtain ⟨a, κ₁, -, hc⟩ := bind_eq_ok.1 hd
  exact h a κ₁ c κ₂ hc

theorem part {n : Run δ} (h : Checks d m) (hn : Safe m → ∀ a, Checks (g a) n) :
    Checks (d >>= g) n := by
  intro κ c κ₂ hd
  obtain ⟨a, κ₁, ha, hc⟩ := bind_eq_ok.1 hd
  exact hn (h κ a κ₁ ha) a κ₁ c κ₂ hc

theorem lift {x : Except EngineError α} {f : α → Run δ} (h : ∀ a, x = .ok a → Checks (g a) (f a)) :
    Checks (liftM x >>= g) (liftM x >>= f) := by
  intro κ c κ₂ hd
  obtain ⟨a, κ₁, ha, hc⟩ := bind_eq_ok.1 hd
  obtain ⟨rfl, rfl⟩ := Compilation.lift_eq_ok.1 ha
  exact h a rfl κ c κ₂ hc

theorem map {f : β → δ} (h : Checks d m) : Checks d (m >>= fun b => Pure.pure (f b)) :=
  h.imp Safe.map

theorem mapped {f : α → γ} (h : Checks d m) : Checks (f <$> d) m := by
  intro κ c κ₁ hd
  obtain ⟨a, ha, -⟩ := map_eq_ok.1 hd
  exact h κ a κ₁ ha

theorem both {f : β → Run δ} (h : Checks d m) (hf : ∀ b, Checks d (f b)) : Checks d (m >>= f) :=
  fun κ a κ' hd => (h κ a κ' hd).bind fun b => hf b κ a κ' hd

theorem inBranch (h : Checks d m) : Checks (Traversal.inBranch d) m := by
  intro κ a κ₁ hd
  rw [Traversal.outcome_inBranch] at hd
  exact h κ.push a _ (Prod.ext (Prod.mk.inj hd).1 rfl)

theorem inLoop (h : Checks d m) : Checks (Traversal.inLoop d) m := by
  intro κ a κ₁ hd
  rw [Traversal.outcome_inLoop] at hd
  exact h κ.push a _ (Prod.ext (Prod.mk.inj hd).1 rfl)

end Checks

/-! ### Slots -/

section

variable {b : Block Kind} {limit : Nat}
  (hvalues : ∀ s ∈ b.values, Checks (compileExpression s.chain) (evaluateChain limit s.chain))
  (hbodies : ∀ s ∈ b.statements, Checks (compileChain s.chain) (evaluateChain limit s.chain))

theorem checks_plug {name : String} {g : Plug SlotCode → Compilation α}
    {f : Plug (Run Value) → Run β}
    (h : ∀ s ∈ b.values,
      Checks (g ⟨!s.chain.isEmpty, ⟨compileExpression s.chain, compileChain s.chain⟩⟩)
        (f ⟨!s.chain.isEmpty, evaluateChain limit s.chain⟩)) :
    Checks (liftM (b.codeParts.value name) >>= g) (liftM ((b.runParts limit).value name) >>= f) := by
  obtain ⟨-, hnone⟩ | ⟨s, hs, -, hrun, hcode⟩ := lookup_sockets b.values
    (fun s => (⟨!s.chain.isEmpty, evaluateChain limit s.chain⟩ : Plug (Run Value)))
    (fun s => (⟨!s.chain.isEmpty, ⟨compileExpression s.chain, compileChain s.chain⟩⟩ :
      Plug SlotCode)) name
  · intro κ a κ₁ hd
    obtain ⟨plug, κ₂, hplug, -⟩ := bind_eq_ok.1 hd
    have hok := (Compilation.lift_eq_ok.1 hplug).1
    rw [Parts.value_eq_ok, Block.values_codeParts, hnone] at hok
    cases hok
  · rw [← Block.values_runParts, ← Parts.value_eq_ok] at hrun
    rw [← Block.values_codeParts, ← Parts.value_eq_ok] at hcode
    rw [hrun, hcode]
    exact h s hs

section

include hvalues

theorem checks_evaluate (name : String) :
    Checks (b.codeParts.compile name) ((b.runParts limit).evaluate name) :=
  checks_plug hvalues

theorem checks_checked (name : String) {x : Value → Except EngineError α} (h : ∀ v, Lenient (x v)) :
    Checks (b.codeParts.compile name)
      ((b.runParts limit).evaluate name >>= fun v => liftM (x v)) :=
  (checks_evaluate hvalues name).imp fun hm => hm.bind fun v => .lift (h v)

theorem checks_condition (name : String) :
    Checks (b.codeParts.compile name) ((b.runParts limit).evaluateCondition name) :=
  checks_checked hvalues name lenient_asCondition

theorem checks_number (name : String) :
    Checks (b.codeParts.compile name) ((b.runParts limit).evaluateNumber name) :=
  checks_checked hvalues name lenient_asNumber

theorem checks_text (name : String) :
    Checks (b.codeParts.compileText name) ((b.runParts limit).evaluateText name) :=
  (checks_evaluate hvalues name).first.map

/-! ### Values -/

theorem checks_joined (slots : List Nat) :
    Checks (b.codeParts.compileFilled (slots.map (numbered "ADD")))
      (slots.mapM fun i => (b.runParts limit).joinedText (numbered "ADD" i)) := by
  induction slots with
  | nil => exact .of_safe (.pure [])
  | cons i rest ih =>
    rw [List.mapM_cons, List.map_cons]
    refine .both (checks_plug fun s hs => ?_) fun _ => .map (.skip fun plug => ?_)
    · split
      · exact (hvalues s hs).first.map
      · exact .of_safe (.pure "")
    · split
      · exact .skip fun _ => ih.first
      · exact ih

theorem checks_items (slots : List Nat) :
    Checks (slots.mapM fun i => b.codeParts.compile (numbered "ADD" i))
      ((b.runParts limit).evaluateItems (slots.map (numbered "ADD"))) := by
  unfold Parts.evaluateItems
  induction slots with
  | nil => exact .of_safe (.pure [])
  | cons i rest ih =>
    rw [List.mapM_cons, List.map_cons, List.mapM_cons]
    exact (checks_evaluate hvalues (numbered "ADD" i)).bind fun _ _ => ih.first.map

theorem checks_list (name : String) (f : List Value → Value) :
    Checks (b.codeParts.compile name) (do
      let v ← (b.runParts limit).evaluate name
      return f (← v.asList)) :=
  (checks_evaluate hvalues name).imp fun h => h.bind fun v => (Safe.lift (lenient_asList v)).map

theorem checks_junction (junction : Junction) (g : Expr → Expr → Code) :
    Checks (do
        let left ← b.codeParts.compile "A"
        let right ← b.codeParts.compile "B"
        return g left right)
      ((b.runParts limit).evaluateJunction junction) := by
  refine (checks_condition hvalues "A").bind fun _ first => ?_
  split
  · exact (checks_condition hvalues "B").first.map
  · exact (checks_condition hvalues "B").first.map
  · exact .of_safe (.pure _)

theorem checks_ternary : Checks (do
      let condition ← b.codeParts.compile "IF"
      let thenExpr ← b.codeParts.compile "THEN"
      let elseExpr ← b.codeParts.compile "ELSE"
      return Code.expression (.conditional condition thenExpr elseExpr))
    (b.runParts limit).evaluateTernary := by
  refine (checks_condition hvalues "IF").bind fun _ decided => ?_
  split
  · exact (checks_evaluate hvalues "THEN").first
  · exact .skip fun _ => (checks_evaluate hvalues "ELSE").first

theorem checks_property (property : Property) :
    Checks (b.codeParts.compileProperty property)
      ((b.runParts limit).evaluateProperty property) := by
  refine (checks_number hvalues "NUMBER_TO_CHECK").bind fun _ x => ?_
  cases property with
  | divisible => exact (checks_number hvalues "DIVISOR").first.map
  | _ => exact .of_safe (.pure _)

theorem checks_constrain :
    Checks b.codeParts.compileConstrain (b.runParts limit).evaluateConstrain :=
  (checks_number hvalues "VALUE").bind fun _ _ => (checks_number hvalues "LOW").bind fun _ _ =>
    (checks_number hvalues "HIGH").first.map

/-! ### Assignments -/

theorem checks_change : Checks b.codeParts.compileChange (b.runParts limit).executeChange := by
  refine .lift fun name _ => (checks_number hvalues "DELTA").bind fun _ delta => .of_safe ?_
  refine (Safe.get name).bind fun current => ?_
  split
  · exact .set _ _
  · exact (Safe.lift (lenient_asNumber _)).bind fun x => .set _ _

theorem checks_append : Checks b.codeParts.compileAppend (b.runParts limit).executeAppend :=
  .lift fun name _ => (checks_text hvalues "TEXT").bind fun _ _ =>
    .of_safe ((Safe.get name).bind fun _ => .set _ _)

theorem checks_set : Checks b.codeParts.compileSet (b.runParts limit).executeSet :=
  .lift fun _ _ => (checks_evaluate hvalues "VALUE").bind fun _ _ => .of_safe (.set _ _)

theorem checks_count (source : CountSource) :
    Checks (b.codeParts.countCode source) ((b.runParts limit).repeatCount source) := by
  cases source with
  | input => exact checks_number hvalues "TIMES"
  | field => exact .lift fun _ _ => .lift fun _ _ => .of_safe (.pure _)

end

/-! ### Branches and loops -/

section

include hbodies

theorem checks_execute (name : String) :
    Checks (b.codeParts.compileBody name) ((b.runParts limit).execute name) := by
  unfold Parts.compileBody Parts.execute
  rw [Block.statements_codeParts, Block.statements_runParts]
  obtain ⟨hcode, hrun⟩ | ⟨s, hs, -, hcode, hrun⟩ := lookup_sockets b.statements
    (fun s => (⟨!s.chain.isEmpty, ⟨compileExpression s.chain, compileChain s.chain⟩⟩ :
      Plug SlotCode))
    (fun s => (⟨!s.chain.isEmpty, evaluateChain limit s.chain⟩ : Plug (Run Value))) name
  · rw [hcode, hrun]
    exact .of_safe (.pure ())
  · rw [hcode, hrun]
    exact (hbodies s hs).map

theorem checks_loopBody :
    Checks b.codeParts.compileLoopBody ((b.runParts limit).execute "DO") :=
  (checks_execute hbodies "DO").inLoop

end

theorem safe_round {p : Parts (Run Value)} (h : Safe (p.execute "DO")) : Safe p.executeRound :=
  h.bind fun _ => (Safe.of_ok fun _ => ⟨_, _, rfl⟩).map

theorem safe_items {p : Parts (Run Value)} (h : Safe (p.execute "DO")) (name : String)
    (items : List Value) : Safe (p.executeItems name items) := by
  induction items with
  | nil => exact .pure ()
  | cons item rest ih =>
    refine (Safe.set name item).bind fun _ => (safe_round h).bind fun goesOn => ?_
    split
    · exact ih
    · exact .pure ()

include hvalues hbodies

theorem checks_arms {hasElse : Bool} (hlast : hasElse = true → Safe ((b.runParts limit).execute "ELSE"))
    (arms : List Nat) :
    Checks (b.codeParts.compileArms arms) ((b.runParts limit).executeArms hasElse arms) := by
  induction arms with
  | nil =>
    unfold Parts.executeArms
    split
    · exact .of_safe (hlast ‹_›).inBranch
    · exact .of_safe (.pure ())
  | cons i rest ih =>
    refine (checks_condition hvalues (numbered "IF" i)).bind fun _ decided => ?_
    split
    · exact ((checks_execute hbodies (numbered "DO" i)).imp Safe.inBranch).inBranch.first
    · exact .skip fun _ => ih.first

theorem checks_branch (alwaysElse : Bool) :
    Checks (b.codeParts.compileBranch alwaysElse) ((b.runParts limit).executeBranch alwaysElse) := by
  refine .lift fun (count, hasElse) _ => ?_
  -- Any arm may be the last that the run tries, but the else is compiled behind all of them. So the
  -- arms are checked under the result of the whole compilation.
  intro κ a κ₂ hd
  obtain ⟨arms, κ₁, harms, hd⟩ := bind_eq_ok.1 hd
  refine checks_arms hvalues hbodies (fun helse => ?_) (List.range count) κ arms κ₁ harms
  subst helse
  exact (checks_execute hbodies "ELSE").inBranch.first κ₁ a κ₂ hd

theorem checks_repeat (source : CountSource) :
    Checks (b.codeParts.compileRepeat source) ((b.runParts limit).executeRepeat limit source) := by
  refine .skip fun _ => (checks_count hvalues source).bind fun code times => ?_
  have hloop : Safe ((b.runParts limit).execute "DO") → Safe (Traversal.inLoop <|
      Run.iterate (fun count : Float => do
        if count < times then
          if ← (b.runParts limit).executeRound then return some (count + 1.0) else return none
        else return none) limit 0.0) := by
    refine fun hbody => (Safe.iterate (fun count => .ite ?_ (.pure none)) limit _).inLoop
    exact (safe_round hbody).bind fun goesOn => .ite (.pure _) (.pure _)
  split
  · exact .skip fun _ => .skip fun _ => ((checks_loopBody hbodies).imp hloop).first
  · exact .skip fun _ => .skip fun _ => .skip fun _ => ((checks_loopBody hbodies).imp hloop).first

theorem checks_whileUntil (mode : LoopMode) :
    Checks (b.codeParts.compileWhileUntil mode)
      ((b.runParts limit).executeWhileUntil limit mode) := by
  refine (checks_condition hvalues "BOOL").part fun hcondition _ =>
    ((checks_loopBody hbodies).imp fun hbody => ?_).first
  cases mode with
  | repeatWhile =>
    refine (Safe.iterate (fun _ => hcondition.bind fun decided => ?_) limit ()).inLoop
    split
    · exact (safe_round hbody).bind fun goesOn => .ite (.pure _) (.pure _)
    · exact .pure none
  | repeatUntil =>
    refine (Safe.iterate (fun _ => hcondition.bind fun decided => ?_) limit ()).inLoop
    split
    · exact .pure none
    · exact hbody.map

theorem checks_range : Checks b.codeParts.compileRange ((b.runParts limit).executeRange limit) := by
  refine .lift fun name _ => (checks_number hvalues "FROM").bind fun _ first =>
    (checks_number hvalues "TO").bind fun _ last => (checks_number hvalues "BY").bind fun _ size =>
      .skip fun _ => .skip fun _ => .skip fun _ => .skip fun _ =>
        ((checks_loopBody hbodies).imp fun hbody => ?_).first
  refine ((Safe.set _ _).bind fun _ => .iterate (fun _ => ?_) limit ()).inLoop
  refine (Safe.get name).bind fun current => (Safe.lift (lenient_asNumber current)).bind fun x =>
    .ite ?_ (.pure none)
  refine (safe_round hbody).bind fun goesOn => .ite ?_ (.pure none)
  exact (Safe.get name).bind fun current => (Safe.lift (lenient_asNumber current)).bind fun x =>
    (Safe.set _ _).map

theorem checks_forEach : Checks b.codeParts.compileForEach (b.runParts limit).executeForEach :=
  .lift fun name _ => (checks_evaluate hvalues "LIST").bind fun _ v => .skip fun _ =>
    ((checks_loopBody hbodies).imp fun hbody =>
      (Safe.lift (lenient_asList v)).bind fun items => (safe_items hbody name items).inLoop).first

/-! ### Kinds -/

theorem checks_kind (k : Kind) : Checks (k.compile b.codeParts) (k.evaluate limit (b.runParts limit)) := by
  cases k with
  | branch alwaysElse => exact (checks_branch hvalues hbodies alwaysElse).map.mapped
  | repeatTimes source => exact (checks_repeat hvalues hbodies source).map.mapped
  | whileUntil => exact .lift fun mode _ => (checks_whileUntil hvalues hbodies mode).first.map
  | countRange => exact (checks_range hvalues hbodies).map.mapped
  | forEach => exact (checks_forEach hvalues hbodies).map.mapped
  | flow =>
    refine Checks.map (Checks.mapped ?_)
    exact .lift fun escape _ => .of_safe (.of_ok fun _ => ⟨_, _, rfl⟩)
  | boolean => exact .lift fun _ _ => .of_safe (.pure _)
  | null => exact .of_safe (.pure _)
  | not => exact (checks_condition hvalues "BOOL").first.map
  | compare =>
    exact .lift fun comparison _ => (checks_evaluate hvalues "A").bind fun _ v =>
      ((checks_evaluate hvalues "B").imp fun h =>
        h.bind fun w => (Safe.lift (lenient_holds comparison v w)).map).first
  | junction => exact .lift fun junction _ => checks_junction hvalues junction _
  | ternary => exact checks_ternary hvalues
  | number => exact .lift fun _ _ => .lift fun _ _ => .of_safe (.pure _)
  | arithmetic =>
    exact .lift fun _ _ => (checks_number hvalues "A").bind fun _ _ =>
      (checks_number hvalues "B").first.map
  | function => exact .lift fun _ _ => (checks_number hvalues "NUM").first.map
  | round => exact .lift fun _ _ => (checks_number hvalues "NUM").first.map
  | constant => exact .lift fun _ _ => .of_safe (.pure _)
  | property => exact .lift fun property _ => (checks_property hvalues property).first
  | modulo =>
    exact (checks_number hvalues "DIVIDEND").bind fun _ _ =>
      (checks_number hvalues "DIVISOR").first.map
  | constrain => exact (checks_constrain hvalues).mapped
  | change => exact (checks_change hvalues).map.mapped
  | text => exact .lift fun _ _ => .of_safe (.pure _)
  | join => exact .lift fun count _ => (checks_joined hvalues (List.range count)).first.map
  | append => exact (checks_append hvalues).map.mapped
  | textLength => exact (checks_text hvalues "VALUE").first.map
  | textIsEmpty => exact (checks_text hvalues "VALUE").first.map
  | changeCase => exact .lift fun _ _ => (checks_text hvalues "TEXT").first.map
  | trim => exact .lift fun _ _ => (checks_text hvalues "TEXT").first.map
  | get => exact .lift fun name _ => .of_safe (.get name)
  | set => exact (checks_set hvalues).map.mapped
  | emptyList => exact .of_safe (.pure _)
  | createList => exact .lift fun count _ => (checks_items hvalues (List.range count)).first.map
  | repeatItem =>
    exact (checks_evaluate hvalues "ITEM").bind fun _ item =>
      ((checks_number hvalues "NUM").imp fun h =>
        h.bind fun count => .lift (lenient_repeatValue item count)).first
  | listLength =>
    exact (checks_list hvalues "VALUE" fun items => .number (Float.ofNat items.length)).first
  | listIsEmpty => exact (checks_list hvalues "VALUE" fun items => .boolean items.isEmpty).first

end

/-! ### Chains -/

def Block.SingleValues (b : Block Kind) : Prop := ∀ s ∈ b.values, s.chain.length ≤ 1

instance : DecidablePred Block.SingleValues := fun b =>
  inferInstanceAs (Decidable (∀ s ∈ b.values, s.chain.length ≤ 1))

/-- As a statement all blocks of a chain are compiled, as a value only the first. -/
theorem checks_chain (limit : Nat) (chain : List (Block Kind))
    (hsingle : Block.AllOf Block.SingleValues chain) :
    Checks (compileChain chain) (evaluateRest limit chain) ∧
      Checks (compileChain chain) (evaluateChain limit chain) ∧
      (chain.length ≤ 1 → Checks (compileExpression chain) (evaluateChain limit chain)) := by
  revert hsingle
  refine Block.chain_induction
    (P := fun b => b.All Block.SingleValues → Checks b.compile (b.evaluate limit))
    (Q := fun chain => Block.AllOf Block.SingleValues chain →
      Checks (compileChain chain) (evaluateRest limit chain) ∧
        Checks (compileChain chain) (evaluateChain limit chain) ∧
        (chain.length ≤ 1 → Checks (compileExpression chain) (evaluateChain limit chain)))
    ?block ?nil ?cons chain
  case block =>
    intro b hvalues hbodies hall
    obtain ⟨hb, hvalueBlocks, hbodyBlocks⟩ := Block.all_iff.1 hall
    rw [Block.compile_eq, Block.evaluate_eq]
    exact checks_kind (fun s hs => (hvalues s hs (hvalueBlocks s hs)).2.2 (hb s hs))
      (fun s hs => (hbodies s hs (hbodyBlocks s hs)).2.1) b.kind
  case nil =>
    exact fun _ => ⟨.of_safe (.pure ()), .of_safe (.pure _), fun _ => .of_safe (.pure _)⟩
  case cons =>
    intro b rest hb hrest hall
    have hfirst := hb hall.1
    have hothers := (hrest hall.2).1
    refine ⟨?_, hfirst.bind fun _ v => hothers.first.map, fun hlength => ?_⟩
    · have hboth : Checks (compileChain (b :: rest)) (do
          let _ ← b.evaluate limit
          evaluateRest limit rest) := hfirst.bind fun _ _ => hothers.first
      exact hboth.imp fun h => (Safe.of_ok fun c => ⟨c, c, rfl⟩).bind fun c => .ite h (.pure ())
    · -- A second block would be run here, but is not part of the compiled value.
      obtain rfl : rest = [] :=
        List.eq_nil_of_length_eq_zero (Nat.le_zero.1 (Nat.le_of_succ_le_succ hlength))
      exact (hfirst.imp fun h => h.bind fun v => (Safe.pure ()).map).first

/-! ### Workspaces -/

theorem checks_chains (limit : Nat) {chains : List (List (Block Kind))}
    (hsingle : ∀ chain ∈ chains, Block.AllOf Block.SingleValues chain) (last : Value) :
    Checks (Workspace.compileChains chains) (Workspace.evaluateFrom limit last chains) := by
  induction chains generalizing last with
  | nil => exact .of_safe (.pure last)
  | cons chain rest ih =>
    have hrest := ih fun other hother => hsingle other (List.mem_cons_of_mem _ hother)
    refine (checks_chain limit chain (hsingle chain List.mem_cons_self)).2.1.bind fun _ v =>
      .skip fun _ => ((hrest v).imp fun h => ?_).first
    exact (Safe.of_ok fun _ => ⟨_, _, rfl⟩).bind fun _ => h

/-- A program that compiles lacks no setting, slot or kind in any run, whatever the host binds and
however long the run is. Only a value can be of a wrong type, or ask for too long a list. -/
theorem run_of_compiled_fails_by_values {w : Workspace Kind}
    (hsingle : ∀ chain ∈ w.chains, Block.AllOf Block.SingleValues chain) {program : Program}
    (hcompile : w.compile = .ok program) (limit : Nat) (bindings : List (String × Value))
    {e : EngineError} (hrun : w.run limit bindings = .error (.error e)) : e.OfValues := by
  have hsafe : Safe (w.evaluate limit) :=
    (checks_chains limit hsingle .null).first {} program _ (Prod.ext hcompile rfl)
  unfold Workspace.run at hrun
  split at hrun
  · cases hrun
  · cases hrun
    exact hsafe _ e _ ‹_›

def longList : Workspace Kind :=
  let number (text : String) : Block Kind :=
    ⟨.number, "math_number", "n", [("NUM", text)], [], [], [], []⟩
  let copies : Block Kind := ⟨.repeatItem, "lists_repeat", "l", [],
    [⟨"ITEM", [number "0"]⟩, ⟨"NUM", [number "16777217"]⟩], [], [], []⟩
  let assignment : Block Kind :=
    ⟨.set, "variables_set", "s", [("VAR", "x")], [⟨"VALUE", [copies]⟩], [], [], []⟩
  let condition : Block Kind := ⟨.boolean, "logic_boolean", "c", [("BOOL", "TRUE")], [], [], [], []⟩
  ⟨[[⟨.branch false, "controls_if", "b", [], [⟨"IF0", [condition]⟩],
    [⟨"DO0", [assignment]⟩], [], []⟩]]⟩

theorem longList_fails_by_values : ∃ program length, longList.compile = .ok program ∧
    longList.run 1 [] = .error (.error (.unsupported (.listTooLong length))) ∧
      EngineError.OfValues (.unsupported (.listTooLong length)) := by
  have hsingle : ∀ chain ∈ longList.chains, Block.AllOf Block.SingleValues chain := by decide
  have hprogram : longList.compile.toOption.isSome = true := by decide +kernel
  have hlength : (match longList.run 1 [] with
      | .error (.error (.unsupported (.listTooLong _))) => true
      | _ => false) = true := by decide +kernel
  split at hlength
  · rename_i length hrun
    cases hcompile : longList.compile with
    | error failure =>
      rw [hcompile] at hprogram
      exact absurd hprogram Bool.false_ne_true
    | ok program =>
      exact ⟨program, length, rfl, hrun, run_of_compiled_fails_by_values hsingle hcompile 1 [] hrun⟩
  · exact absurd hlength Bool.false_ne_true

end Blockwork
