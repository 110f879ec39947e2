import Blockwork.Proofs.Compiler.Parity

/-! The slots of a value whose chains are longer than one block, or start with an assignment. A run
goes through the whole chain and gives the value of its first block. The expression is that of the
first block, and an assignment has the value that it assigns. -/

namespace Blockwork

open Target

variable {names : List String} {limit : Nat} {b : Block Kind} {c c₁ : Context Value} {v : Value}
  {e : Expr} {κ κ' : Context Expr} {σ : Store}

/-- What the expression of a block gives, where the block gives a value and leaves a context: the
value itself if the block only reads, and what is assigned if it assigns. -/
inductive Block.Yields (b : Block Kind) (c : Context Value) :
    Value → Context Value → Target.Value → Prop where
  | reading (v : Value) (hvalue : b.kind.isValue = true) : b.Yields c v c v.target
  | assigning (name : String) (u : Value) (hvalue : b.kind.isValue = false) :
    b.Yields c .null (c.set name u) u.target

theorem Mirrors.yields {m : Run Value} {d : Compilation Code}
    (h : Mirrors c (Code.Denotes names c.scopes) m d) (hvalue : b.kind.isValue = true)
    (hm : outcome m c = (.ok v, c₁)) (hd : outcome d κ = (.ok (.expression e), κ'))
    (hσ : Agrees names c.scopes σ) :
    ∃ w σ', e.eval σ = some (w, σ') ∧ Agrees names c₁.scopes σ' ∧ b.Yields c v c₁ w := by
  obtain ⟨rfl, he⟩ := h v c₁ κ _ κ' hm hd
  exact ⟨v.target, σ, he σ hσ, hσ, .reading v hvalue⟩

theorem Assigns.yields {m : Run Unit} {d : Compilation Expr} (h : Assigns names m d)
    (hvalue : b.kind.isValue = false) (hm : outcome (do m; return Value.null) c = (.ok v, c₁))
    (hd : outcome (Code.expression <$> d) κ = (.ok (.expression e), κ'))
    (hσ : Agrees names c.scopes σ) :
    ∃ w σ', e.eval σ = some (w, σ') ∧ Agrees names c₁.scopes σ' ∧ b.Yields c v c₁ w := by
  obtain ⟨_, c₂, hassign, hnull⟩ := bind_eq_ok.1 hm
  obtain ⟨rfl, rfl⟩ := pure_eq_ok.1 hnull
  obtain ⟨assignment, he, hcode⟩ := map_eq_ok.1 hd
  obtain rfl := Code.expression.inj hcode
  obtain ⟨name, u, value, hname, rfl, rfl, hdenotes⟩ := h c c₂ κ _ κ' hassign he
  refine ⟨u.target, σ.put name u.target, eval_assign (hdenotes σ hσ), ?_, .assigning name u hvalue⟩
  rw [Context.scopes_set]
  exact hσ.set hname u

theorem statements_ne_expression {d : Compilation (List Stmt)}
    (h : outcome (Code.statements <$> d) κ = (.ok (.expression e), κ')) : False := by
  obtain ⟨_, -, hcode⟩ := map_eq_ok.1 h
  exact Code.noConfusion hcode

theorem head_yields (hshared : b.All (Block.Shared names))
    (hrun : outcome (b.evaluate limit) c = (.ok v, c₁))
    (hcode : outcome b.compile κ = (.ok (.expression e), κ')) (hσ : Agrees names c.scopes σ) :
    ∃ w σ', e.eval σ = some (w, σ') ∧ Agrees names c₁.scopes σ' ∧ b.Yields c v c₁ w := by
  obtain ⟨hb, hvalues, -⟩ := Block.all_iff.1 hshared
  have hslots : ∀ (c : Context Value), ∀ s ∈ b.values,
      Mirrors c (Computes names c) (evaluateChain limit s.chain) (compileExpression s.chain) :=
    fun c s hs => mirrors_evaluateChain c (hvalues s hs) (hb.tame.values s hs)
  rw [Block.evaluate_eq] at hrun
  rw [Block.compile_eq] at hcode
  -- A block that is no value and compiles to an expression is one of three assignments.
  by_cases hvalue : b.kind.isValue = true
  · exact (mirrors_kind hvalue hb (hslots c)).yields hvalue hrun hcode hσ
  · have hvalue : b.kind.isValue = false := Bool.eq_false_iff.2 hvalue
    cases hk : b.kind with
    | set =>
      rw [hk] at hrun hcode
      exact (assigns_set hb.bound hslots).yields hvalue hrun hcode hσ
    | change =>
      rw [hk] at hrun hcode
      exact (assigns_change hb.bound hslots).yields hvalue hrun hcode hσ
    | append =>
      rw [hk] at hrun hcode
      exact (assigns_append hb.bound hslots).yields hvalue hrun hcode hσ
    | branch | repeatTimes | countRange | forEach | flow =>
      rw [hk] at hcode
      exact (statements_ne_expression hcode).elim
    | whileUntil =>
      rw [hk] at hcode
      have hcode : outcome (liftM (b.codeParts.option "MODE" LoopMode.options) >>= fun mode =>
          Code.statements <$> b.codeParts.compileWhileUntil mode) κ = (.ok (.expression e), κ') := hcode
      obtain ⟨mode, κ₁, -, hcode⟩ := bind_eq_ok.1 hcode
      exact (statements_ne_expression hcode).elim
    | _ =>
      rw [hk] at hvalue
      exact absurd hvalue (by decide)

/-- The expression of a slot does to a store what the first block of the chain does to the context.
The rest of the chain is run too, but it is not in the expression; and where the first block
assigns, the slot is null while the expression has the assigned value. -/
theorem slot_does_its_head {rest : List (Block Kind)} {c' : Context Value}
    (hshared : b.All (Block.Shared names))
    (hrun : outcome (evaluateChain limit (b :: rest)) c = (.ok v, c'))
    (hcode : outcome (compileExpression (b :: rest)) κ = (.ok e, κ'))
    (hσ : Agrees names c.scopes σ) :
    ∃ c₁ w σ', outcome (b.evaluate limit) c = (.ok v, c₁) ∧
      outcome (evaluateRest limit rest) c₁ = (.ok (), c') ∧ e.eval σ = some (w, σ') ∧
      Agrees names c₁.scopes σ' ∧ b.Yields c v c₁ w := by
  obtain ⟨u, c₁, hhead, hrun⟩ := bind_eq_ok.1 hrun
  obtain ⟨_, c₂, hrest, hrun⟩ := bind_eq_ok.1 hrun
  obtain ⟨rfl, rfl⟩ := pure_eq_ok.1 hrun
  obtain ⟨code, κ₁, hcompile, hcode⟩ := bind_eq_ok.1 hcode
  cases code with
  | statements body => exact (throw_eq_ok.1 hcode).elim
  | expression head =>
    obtain ⟨rfl, -⟩ := pure_eq_ok.1 hcode
    obtain ⟨w, σ', heval, hagrees, hyields⟩ := head_yields hshared hhead hcompile hσ
    exact ⟨c₁, w, σ', hhead, hrest, heval, hagrees, hyields⟩

def letter (text : String) : Block Kind := ⟨.text, "text", "t", [("TEXT", text)], [], [], [], []⟩

def setLetter (name text : String) : Block Kind :=
  ⟨.set, "variables_set", "s", [("VAR", name)], [⟨"VALUE", [letter text]⟩], [], [], []⟩

def letters : List (String × Value) := [("x", .text "a"), ("y", .text "a")]

theorem letter_does_its_head :
    (letter "c").All (Block.Shared ["x", "y"]) ∧
      ∃ c₁ w σ', outcome ((letter "c").evaluate 1) (.ofBindings letters) = (.ok (.text "c"), c₁) ∧
        outcome (evaluateRest 1 [setLetter "y" "b"]) c₁ =
          (.ok (), .ofBindings [("x", .text "a"), ("y", .text "b")]) ∧
        (Expr.text "c").eval (storeOf letters) = some (w, σ') ∧ Agrees ["x", "y"] c₁.scopes σ' ∧
        (letter "c").Yields (.ofBindings letters) (.text "c") c₁ w := by
  have hall : Block.AllOf (Block.Shared ["x", "y"]) [letter "c"] := by decide
  have hrun : outcome (evaluateChain 1 [letter "c", setLetter "y" "b"]) (.ofBindings letters) =
      (.ok (.text "c"), .ofBindings [("x", .text "a"), ("y", .text "b")]) := by
    with_unfolding_all rfl
  have hcode : outcome (compileExpression [letter "c", setLetter "y" "b"]) {} =
      (.ok (.text "c"), {}) := by with_unfolding_all rfl
  exact ⟨hall.1, slot_does_its_head hall.1 hrun hcode (agrees_ofBindings letters)⟩

/-- Two assignments in one slot. The run makes both and gives null; the expression makes the first
and gives what it assigns. -/
theorem setLetters_differ : ∃ e κ,
    outcome (compileExpression [setLetter "x" "b", setLetter "y" "b"]) {} = (.ok e, κ) ∧
      outcome (evaluateChain 1 [setLetter "x" "b", setLetter "y" "b"]) (.ofBindings letters) =
        (.ok .null, .ofBindings [("x", .text "b"), ("y", .text "b")]) ∧
      e.eval (storeOf letters) =
        some (.text "b", storeOf [("x", .text "b"), ("y", .text "a")]) := by
  refine ⟨.assign "x" (.text "b"), ⟨[], ⟨[("x", .text "b")], .none⟩⟩, ?_, ?_, ?_⟩
  · with_unfolding_all rfl
  · with_unfolding_all rfl
  · with_unfolding_all rfl

end Blockwork
