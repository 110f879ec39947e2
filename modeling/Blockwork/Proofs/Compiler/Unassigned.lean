import Blockwork.Proofs.Compiler.Declarations

/-! What a program does not assign, it does not change. -/

namespace Blockwork.Target

variable {name : String} {σ σ' : Store}

/-! ### Expressions -/

mutual

theorem Expr.get?_eval : ∀ (e : Expr) {σ σ' : Store} {v : Value}, name ∉ e.assigned →
    e.eval σ = some (v, σ') → σ'.get? name = σ.get? name
  | .null, _, _, _, _, h | .boolean _, _, _, _, _, h | .number _, _, _, _, _, h
  | .text _, _, _, _, _, h | .variable _, _, _, _, _, h => by
    obtain ⟨-, rfl⟩ := Prod.mk.inj (Option.some.inj h)
    rfl
  | .list items, _, _, _, hname, h => by
    obtain ⟨⟨vs, σ₁⟩, hitems, h⟩ := Option.bind_eq_some_iff.1 h
    obtain ⟨-, rfl⟩ := Prod.mk.inj (Option.some.inj h)
    exact get?_evalAll items hname hitems
  | .assign target value, _, _, _, hname, h => by
    obtain ⟨⟨v, σ₁⟩, hvalue, h⟩ := Option.bind_eq_some_iff.1 h
    obtain ⟨-, rfl⟩ := Prod.mk.inj (Option.some.inj h)
    obtain ⟨hne, hname⟩ := not_or.1 (mt List.mem_cons.2 hname)
    rw [Entries.get?_put_of_ne _ _ hne]
    exact value.get?_eval hname hvalue
  | .unary _ operand, _, _, _, hname, h => by
    obtain ⟨⟨v, σ₁⟩, hoperand, h⟩ := Option.bind_eq_some_iff.1 h
    obtain ⟨-, rfl⟩ := Prod.mk.inj (Option.some.inj h)
    exact operand.get?_eval hname hoperand
  | .binary op left right, _, _, _, hname, h => by
    obtain ⟨hleft, hright⟩ := not_or.1 (mt List.mem_append.2 hname)
    obtain ⟨⟨v, σ₁⟩, hv, h⟩ := Option.bind_eq_some_iff.1 h
    dsimp only at h
    split at h
    · obtain ⟨-, rfl⟩ := Prod.mk.inj (Option.some.inj h)
      exact left.get?_eval hleft hv
    · obtain ⟨⟨w, σ₂⟩, hw, h⟩ := Option.bind_eq_some_iff.1 h
      obtain ⟨-, rfl⟩ := Prod.mk.inj (Option.some.inj h)
      exact (right.get?_eval hright hw).trans (left.get?_eval hleft hv)
  | .conditional condition thenExpr elseExpr, _, _, _, hname, h => by
    obtain ⟨hcondition, hbranches⟩ := not_or.1 (mt List.mem_append.2 hname)
    obtain ⟨hthen, helse⟩ := not_or.1 (mt List.mem_append.2 hbranches)
    obtain ⟨⟨v, σ₁⟩, hv, h⟩ := Option.bind_eq_some_iff.1 h
    refine Eq.trans ?_ (condition.get?_eval hcondition hv)
    dsimp only at h
    split at h
    · exact thenExpr.get?_eval hthen h
    · exact elseExpr.get?_eval helse h
  | .call _ args, _, _, _, hname, h => by
    obtain ⟨⟨vs, σ₁⟩, hargs, h⟩ := Option.bind_eq_some_iff.1 h
    obtain ⟨v, -, h⟩ := Option.bind_eq_some_iff.1 h
    obtain ⟨-, rfl⟩ := Prod.mk.inj (Option.some.inj h)
    exact get?_evalAll args hname hargs
  | .method receiver _ _, _, _, _, hname, h => by
    obtain ⟨⟨v, σ₁⟩, hreceiver, h⟩ := Option.bind_eq_some_iff.1 h
    obtain ⟨w, -, h⟩ := Option.bind_eq_some_iff.1 h
    obtain ⟨-, rfl⟩ := Prod.mk.inj (Option.some.inj h)
    exact receiver.get?_eval (not_or.1 (mt List.mem_append.2 hname)).1 hreceiver
  | .member object _, _, _, _, hname, h => by
    obtain ⟨⟨v, σ₁⟩, hobject, h⟩ := Option.bind_eq_some_iff.1 h
    obtain ⟨w, -, h⟩ := Option.bind_eq_some_iff.1 h
    obtain ⟨-, rfl⟩ := Prod.mk.inj (Option.some.inj h)
    exact object.get?_eval hname hobject

theorem get?_evalAll : ∀ (items : List Expr) {σ σ' : Store} {vs : List Value},
    name ∉ itemsAssigned items → evalAll items σ = some (vs, σ') → σ'.get? name = σ.get? name
  | [], _, _, _, _, h => by
    obtain ⟨-, rfl⟩ := Prod.mk.inj (Option.some.inj h)
    rfl
  | e :: rest, _, _, _, hname, h => by
    obtain ⟨hitem, hrest⟩ := not_or.1 (mt List.mem_append.2 hname)
    obtain ⟨⟨v, σ₁⟩, hv, h⟩ := Option.bind_eq_some_iff.1 h
    obtain ⟨⟨vs, σ₂⟩, hvs, h⟩ := Option.bind_eq_some_iff.1 h
    obtain ⟨-, rfl⟩ := Prod.mk.inj (Option.some.inj h)
    exact (get?_evalAll rest hrest hvs).trans (e.get?_eval hitem hv)

end

/-! ### Loops -/

section

variable {condition : Store → Option (Value × Store)} {body : Effect}
  {update : Store → Option Store}
  (hcondition : ∀ σ v σ', condition σ = some (v, σ') → σ'.get? name = σ.get? name)
  (hbody : ∀ σ e σ', body σ = some (e, σ') → σ'.get? name = σ.get? name)

section

variable (hupdate : ∀ σ σ', update σ = some σ' → σ'.get? name = σ.get? name)
include hcondition hbody hupdate

theorem get?_turn {more : Bool} (h : turn condition body update σ = some (more, σ')) :
    σ'.get? name = σ.get? name := by
  obtain ⟨⟨v, σ₁⟩, hv, h⟩ := Option.bind_eq_some_iff.1 h
  refine Eq.trans ?_ (hcondition _ _ _ hv)
  dsimp only at h
  split at h
  · obtain ⟨⟨e, σ₂⟩, he, h⟩ := Option.bind_eq_some_iff.1 h
    refine Eq.trans ?_ (hbody _ _ _ he)
    dsimp only at h
    split at h
    · obtain ⟨-, rfl⟩ := Prod.mk.inj (Option.some.inj h)
      rfl
    · obtain ⟨σ₃, hσ₃, h⟩ := Option.bind_eq_some_iff.1 h
      obtain ⟨-, rfl⟩ := Prod.mk.inj (Option.some.inj h)
      exact hupdate _ _ hσ₃
  · obtain ⟨-, rfl⟩ := Prod.mk.inj (Option.some.inj h)
    rfl

theorem get?_turns {limit : Nat} (h : turns condition body update limit σ = some σ') :
    σ'.get? name = σ.get? name := by
  induction limit generalizing σ with
  | zero => exact absurd h (Option.some_ne_none σ').symm
  | succ limit ih =>
    obtain ⟨⟨more, σ₁⟩, hturn, h⟩ := Option.bind_eq_some_iff.1 h
    refine Eq.trans ?_ (get?_turn hcondition hbody hupdate hturn)
    cases more with
    | true => exact ih h
    | false => rw [Option.some.inj h]

end

include hbody in
theorem get?_turnItems {target : String} (hne : name ≠ target) (items : List Value)
    (h : turnItems body target items σ = some σ') : σ'.get? name = σ.get? name := by
  induction items generalizing σ with
  | nil => rw [Option.some.inj h]
  | cons item rest ih =>
    obtain ⟨⟨e, σ₁⟩, he, h⟩ := Option.bind_eq_some_iff.1 h
    have hround := (hbody _ _ _ he).trans (Entries.get?_put_of_ne σ item hne)
    dsimp only at h
    split at h
    · rw [← Option.some.inj h, hround]
    · exact (ih h).trans hround

end

/-! ### Statements -/

mutual

theorem Stmt.get?_exec (limit : Nat) : ∀ (s : Stmt) {σ σ' : Store} {e : Escape},
    name ∉ s.assigned → s.exec limit σ = some (e, σ') → σ'.get? name = σ.get? name
  | .expr value, _, _, _, hname, h => by
    obtain ⟨⟨v, σ₁⟩, hv, h⟩ := Option.bind_eq_some_iff.1 h
    obtain ⟨-, rfl⟩ := Prod.mk.inj (Option.some.inj h)
    exact value.get?_eval hname hv
  | .branch condition body otherwise, _, _, _, hname, h => by
    obtain ⟨hcondition, hbodies⟩ := not_or.1 (mt List.mem_append.2 hname)
    obtain ⟨hbody, hotherwise⟩ := not_or.1 (mt List.mem_append.2 hbodies)
    obtain ⟨⟨v, σ₁⟩, hv, h⟩ := Option.bind_eq_some_iff.1 h
    refine Eq.trans ?_ (condition.get?_eval hcondition hv)
    dsimp only at h
    split at h
    · exact get?_execBody limit body hbody h
    · exact get?_execBody limit otherwise hotherwise h
  | .whileLoop condition body, _, _, _, hname, h => by
    obtain ⟨hcondition, hbody⟩ := not_or.1 (mt List.mem_append.2 hname)
    obtain ⟨σ₁, hturns, h⟩ := Option.bind_eq_some_iff.1 h
    obtain ⟨-, rfl⟩ := Prod.mk.inj (Option.some.inj h)
    exact get?_turns (fun _ _ _ hv => condition.get?_eval hcondition hv)
      (fun _ _ _ he => get?_execBody limit body hbody he)
      (fun _ _ hσ => by rw [Option.some.inj hσ]) hturns
  | .forLoop start condition update body, _, _, _, hname, h => by
    obtain ⟨hstart, hname⟩ := not_or.1 (mt List.mem_append.2 hname)
    obtain ⟨hcondition, hname⟩ := not_or.1 (mt List.mem_append.2 hname)
    obtain ⟨hupdate, hbody⟩ := not_or.1 (mt List.mem_append.2 hname)
    obtain ⟨⟨v, σ₁⟩, hv, h⟩ := Option.bind_eq_some_iff.1 h
    obtain ⟨σ₂, hturns, h⟩ := Option.bind_eq_some_iff.1 h
    obtain ⟨-, rfl⟩ := Prod.mk.inj (Option.some.inj h)
    refine Eq.trans ?_ (start.get?_eval hstart hv)
    refine get?_turns (fun _ _ _ hv => condition.get?_eval hcondition hv)
      (fun _ _ _ he => get?_execBody limit body hbody he) (fun _ _ hσ => ?_) hturns
    obtain ⟨⟨w, σ₃⟩, hw, rfl⟩ := Option.map_eq_some_iff.1 hσ
    exact update.get?_eval hupdate hw
  | .forEach target sequence body, _, _, _, hname, h => by
    obtain ⟨hne, hname⟩ := not_or.1 (mt List.mem_cons.2 hname)
    obtain ⟨hsequence, hbody⟩ := not_or.1 (mt List.mem_append.2 hname)
    obtain ⟨⟨v, σ₁⟩, hv, h⟩ := Option.bind_eq_some_iff.1 h
    refine Eq.trans ?_ (sequence.get?_eval hsequence hv)
    cases v with
    | list items =>
      obtain ⟨σ₂, hturns, h⟩ := Option.bind_eq_some_iff.1 h
      obtain ⟨-, rfl⟩ := Prod.mk.inj (Option.some.inj h)
      exact get?_turnItems (fun _ _ _ he => get?_execBody limit body hbody he) hne items hturns
    | _ => exact absurd h (Option.some_ne_none _).symm
  | .breaking, _, _, _, _, h | .continuing, _, _, _, _, h => by
    obtain ⟨-, rfl⟩ := Prod.mk.inj (Option.some.inj h)
    rfl

theorem get?_execBody (limit : Nat) : ∀ (body : List Stmt) {σ σ' : Store} {e : Escape},
    name ∉ bodyAssigned body → execBody limit body σ = some (e, σ') →
      σ'.get? name = σ.get? name
  | [], _, _, _, _, h => by
    obtain ⟨-, rfl⟩ := Prod.mk.inj (Option.some.inj h)
    rfl
  | s :: rest, _, _, _, hname, h => by
    obtain ⟨hs, hrest⟩ := not_or.1 (mt List.mem_append.2 hname)
    obtain ⟨⟨e, σ₁⟩, he, h⟩ := Option.bind_eq_some_iff.1 h
    refine Eq.trans ?_ (s.get?_exec limit hs he)
    dsimp only at h
    split at h
    · exact get?_execBody limit rest hrest h
    · obtain ⟨-, rfl⟩ := Prod.mk.inj (Option.some.inj h)
      rfl

end

end Blockwork.Target
