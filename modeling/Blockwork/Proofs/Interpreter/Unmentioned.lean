import Blockwork.Proofs.Entries
import Blockwork.Proofs.Interpreter.OneStore
import Blockwork.Proofs.Interpreter.SideBySide

/-! Variables that no block mentions. Two runs whose roots differ only in what no block asks for do the
same step by step: an entry of the host that is never mentioned neither has an effect nor is changed,
and the order of the host's entries shows in the order of the final bindings alone. -/

namespace Blockwork

/-! ### Tables that cannot be told apart -/

/-- Tables that are related give the same values to these names, and stay related when each of them
takes the same assignment to one of the names. -/
structure Indistinct (names : String → Prop) (R : Entries Value → Entries Value → Prop) : Prop where
  get? : ∀ {es es' name}, R es es' → names name → es.get? name = es'.get? name
  put : ∀ {es es' name} (v : Value), R es es' → names name → R (es.put name v) (es'.put name v)

/-- The second table has one more entry, behind those of the host; its name is not in the first. -/
structure Extended (host : List String) (name : String) (v : Value) (es es' : Entries Value) :
    Prop where
  new : name ∉ es.names
  inserted : ∃ front back : Entries Value, es = front ++ back ∧ front.names = host ∧
    es' = front ++ (name, v) :: back

/-- The second table has the entries of the first in some order. Each name has one entry. -/
structure Reordered (es es' : Entries Value) : Prop where
  distinct : es.names.Nodup
  perm : es.Perm es'

theorem indistinct_extended (host : List String) (name : String) (v : Value) :
    Indistinct (· ≠ name) (Extended host name v) where
  get? := by
    rintro _ _ other ⟨-, front, back, rfl, -, rfl⟩ hother
    have hne : (other == name) = false := by simpa using hother
    simp only [Entries.get?, List.lookup_append, List.lookup_cons, hne]
  put := by
    rintro _ _ other w ⟨hnew, front, back, rfl, hfront, rfl⟩ hother
    refine ⟨fun hmem => ?_, ?_⟩
    · rw [Entries.names_put] at hmem
      split at hmem
      · exact hnew hmem
      · rcases List.mem_append.1 hmem with hmem | hmem
        · exact hnew hmem
        · exact hother (List.mem_singleton.1 hmem).symm
    -- An entry of the host keeps its place in front of the new one, any other is behind it.
    · by_cases hmem : other ∈ front.names
      · refine ⟨front.put other w, back, Entries.put_append_of_mem hmem w back, ?_,
          Entries.put_append_of_mem hmem w _⟩
        rw [Entries.names_put, if_pos hmem, hfront]
      · refine ⟨front, Entries.put back other w, Entries.put_append_of_not_mem hmem w back, hfront,
          ?_⟩
        rw [Entries.put_append_of_not_mem hmem, Entries.put, if_neg fun h => hother h.symm]

theorem indistinct_reordered : Indistinct (fun _ => True) Reordered where
  get? := fun h _ => Entries.get?_perm h.perm h.distinct _
  put := by
    intro es es' name v h _
    have hdistinct' : es'.names.Nodup := (h.perm.map Prod.fst).nodup_iff.1 h.distinct
    refine ⟨Entries.nodup_names_put h.distinct name v, ?_⟩
    exact (Entries.put_perm h.distinct name v).trans
      (((h.perm.filter _).cons _).trans (Entries.put_perm hdistinct' name v).symm)

/-! ### Contexts and runs -/

structure Context.Alike (R : Entries Value → Entries Value → Prop) (c c' : Context Value) :
    Prop where
  inner : c.inner = c'.inner
  escape : c.root.escape = c'.root.escape
  root : R c.root.bindings c'.root.bindings

namespace Context.Alike

variable {names : String → Prop} {R : Entries Value → Entries Value → Prop} {c c' : Context Value}

theorem push (h : c.Alike R c') : c.push.Alike R c'.push :=
  ⟨congrArg (({} : Scope Value) :: ·) h.inner, h.escape, h.root⟩

theorem pop (h : c.Alike R c') : c.pop.Alike R c'.pop :=
  ⟨congrArg List.tail h.inner, h.escape, h.root⟩

theorem escape_eq (h : c.Alike R c') : c.escape = c'.escape := by
  obtain ⟨inner, root⟩ := c
  obtain ⟨inner', root'⟩ := c'
  obtain rfl : inner = inner' := h.inner
  cases inner with
  | nil => exact h.escape
  | cons scope rest => rfl

theorem setEscape (h : c.Alike R c') (e : Escape) : (c.setEscape e).Alike R (c'.setEscape e) := by
  obtain ⟨inner, root⟩ := c
  obtain ⟨inner', root'⟩ := c'
  obtain rfl : inner = inner' := h.inner
  cases inner with
  | nil => exact ⟨rfl, rfl, h.root⟩
  | cons scope rest => exact ⟨rfl, h.escape, h.root⟩

variable (hR : Indistinct names R) {name : String} (hname : names name)
include hR hname

theorem get?_eq (h : c.Alike R c') : c.get? name = c'.get? name := by
  obtain ⟨inner, root⟩ := c
  obtain ⟨inner', root'⟩ := c'
  obtain rfl : inner = inner' := h.inner
  have hroot : root.bindings.get? name = root'.bindings.get? name := hR.get? h.root hname
  cases inner with
  | nil => simp only [Context.get?, Context.current, List.headD_nil, hroot]
  | cons scope rest => simp only [Context.get?, Context.current, List.headD_cons, hroot]

theorem contains_eq (h : c.Alike R c') :
    c.root.bindings.contains name = c'.root.bindings.contains name := by
  rw [Bool.eq_iff_iff, Entries.contains_iff, Entries.contains_iff, ← not_iff_not,
    ← Entries.get?_eq_none, ← Entries.get?_eq_none, hR.get? h.root hname]

theorem set (h : c.Alike R c') (v : Value) : (c.set name v).Alike R (c'.set name v) := by
  have hcontains := h.contains_eq hR hname
  have hdeclared : (c.declare name v).Alike R (c'.declare name v) :=
    ⟨h.inner, h.escape, hR.put v h.root hname⟩
  obtain ⟨inner, root⟩ := c
  obtain ⟨inner', root'⟩ := c'
  obtain rfl : inner = inner' := h.inner
  cases inner with
  | nil =>
    have hset : ∀ root : Scope Value,
        (⟨[], root⟩ : Context Value).set name v = (⟨[], root⟩ : Context Value).declare name v := by
      intro root
      rw [Context.set, Context.setCurrent]
      split
      · rfl
      · split <;> rfl
    rw [hset, hset]
    exact hdeclared
  | cons scope rest =>
    have hcurrent : ∀ root : Scope Value,
        (⟨scope :: rest, root⟩ : Context Value).current = scope := fun _ => rfl
    rw [Context.set, Context.set, hcurrent, hcurrent, hcontains]
    split
    · exact ⟨rfl, h.escape, h.root⟩
    · split
      · exact hdeclared
      · exact ⟨rfl, h.escape, h.root⟩

end Context.Alike

def Run.Blind {α : Type} (R : Entries Value → Entries Value → Prop) (m : Run α) : Prop :=
  ∀ c c' : Context Value, c.Alike R c' → (outcome m c).1 = (outcome m c').1 ∧
    (outcome m c).2.Alike R (outcome m c').2

theorem isRespected_alike {names : String → Prop} {R : Entries Value → Entries Value → Prop}
    (hR : Indistinct names R) : Context.IsRespected names (Context.Alike R) where
  get? h hname := h.get?_eq hR hname
  escape h := h.escape_eq
  set v h hname := h.set hR hname v
  setEscape e h := h.setEscape e
  push h := h.push
  pop _ _ _ h := h.pop

theorem blind_evaluateFrom {names : String → Prop} {R : Entries Value → Entries Value → Prop}
    (hR : Indistinct names R) (limit : Nat) {chains : List (List (Block Kind))}
    (h : ∀ chain ∈ chains, Block.AllOf (Block.Mentions names) chain) (last : Value) :
    Run.Blind R (Workspace.evaluateFrom limit last chains) :=
  respects_evaluateFrom (isRespected_alike hR) limit h last

namespace Workspace

def Avoids (name : String) (w : Workspace Kind) : Prop :=
  ∀ chain ∈ w.chains, Block.AllOf (Block.Mentions (· ≠ name)) chain

/-- Both runs halt in the same way, or both end with the same value and with related bindings. -/
inductive Matches (R : Entries Value → Entries Value → Prop) :
    Except Halt Execution → Except Halt Execution → Prop
  | halted (h : Halt) : Matches R (.error h) (.error h)
  | ended (value : Value) {bindings bindings' : Entries Value} (related : R bindings bindings') :
    Matches R (.ok ⟨value, bindings⟩) (.ok ⟨value, bindings'⟩)

theorem matches_of_blind {R : Entries Value → Entries Value → Prop} {w : Workspace Kind}
    {limit : Nat} (h : Run.Blind R (w.evaluate limit)) {bindings bindings' : List (String × Value)}
    (hroot : R (Entries.ofList bindings) (Entries.ofList bindings')) :
    Matches R (w.run limit bindings) (w.run limit bindings') := by
  have hrun := h (.ofBindings bindings) (.ofBindings bindings') ⟨rfl, rfl, hroot⟩
  show Matches R
    (match outcome (w.evaluate limit) (.ofBindings bindings) with
      | (.ok value, c) => .ok ⟨value, c.root.bindings⟩
      | (.error halt, _) => .error halt)
    (match outcome (w.evaluate limit) (.ofBindings bindings') with
      | (.ok value, c) => .ok ⟨value, c.root.bindings⟩
      | (.error halt, _) => .error halt)
  generalize outcome (w.evaluate limit) (.ofBindings bindings) = x at hrun ⊢
  generalize outcome (w.evaluate limit) (.ofBindings bindings') = x' at hrun ⊢
  obtain ⟨result, c⟩ := x
  obtain ⟨result', c'⟩ := x'
  obtain ⟨rfl, hc⟩ : result = result' ∧ c.Alike R c' := hrun
  cases result with
  | error halt => exact .halted halt
  | ok value => exact .ended value hc.root

/-- A binding of the host that no block mentions has no effect on a run, whatever bound is set for the
rounds of its loops: it is there afterwards as it was, behind the other bindings of the host, and all
else is as without it. The order in which the host gives its bindings decides on their order in the
end and on nothing else. -/
theorem run_ignores_unmentioned {w : Workspace Kind} {bindings : List (String × Value)}
    (hdistinct : (Entries.names bindings).Nodup) (limit : Nat) :
    (∀ name v, name ∉ Entries.names bindings → w.Avoids name →
      Matches (Extended (Entries.names bindings) name v) (w.run limit bindings)
        (w.run limit (bindings ++ [(name, v)]))) ∧
      ∀ bindings', bindings.Perm bindings' →
        Matches Reordered (w.run limit bindings) (w.run limit bindings') := by
  constructor
  · intro name v hnew havoids
    refine matches_of_blind (blind_evaluateFrom (indistinct_extended _ name v) limit havoids .null) ?_
    have hlonger : (Entries.names (bindings ++ [(name, v)])).Nodup := by
      rw [Entries.names, List.map_append]
      refine List.nodup_append.2 ⟨hdistinct, List.nodup_singleton name, ?_⟩
      rintro a ha b hb rfl
      obtain rfl : a = name := List.mem_singleton.1 hb
      exact hnew ha
    rw [Entries.ofList_of_nodup hdistinct, Entries.ofList_of_nodup hlonger]
    exact ⟨hnew, bindings, [], (List.append_nil _).symm, rfl, rfl⟩
  · intro bindings' hperm
    have hmentions : ∀ chain ∈ w.chains, Block.AllOf (Block.Mentions fun _ => True) chain :=
      fun chain _ => Block.allOf_of_forall (fun _ _ _ => trivial) chain
    refine matches_of_blind (blind_evaluateFrom indistinct_reordered limit hmentions .null) ?_
    have hdistinct' : (Entries.names bindings').Nodup :=
      (hperm.map Prod.fst).nodup_iff.1 hdistinct
    rw [Entries.ofList_of_nodup hdistinct, Entries.ofList_of_nodup hdistinct']
    exact ⟨hdistinct, hperm⟩

/-- A name that no block mentions, and two bindings of the host in either order. -/
theorem remark_ignores_unmentioned :
    let w : Workspace Kind := ⟨[remark]⟩
    let host : List (String × Value) := [("mark", .null), ("note", .text "no")]
    (Entries.names host).Nodup ∧ "spare" ∉ Entries.names host ∧ w.Avoids "spare" ∧
      w.run 1 host = .ok ⟨.null, [("mark", .null), ("note", .text "no!")]⟩ ∧
      Matches (Extended (Entries.names host) "spare" (.boolean true)) (w.run 1 host)
        (w.run 1 (host ++ [("spare", .boolean true)])) ∧
      host.Perm host.reverse ∧ Matches Reordered (w.run 1 host) (w.run 1 host.reverse) := by
  intro w host
  have hdistinct : (Entries.names host).Nodup := by decide
  have hnew : "spare" ∉ Entries.names host := by decide
  have havoids : w.Avoids "spare" := by
    simp [w, Avoids, remark, Block.AllOf, Block.All, Socket.All, Block.Mentions, Entries.get?]
  have hrun : w.run 1 host = .ok ⟨.null, [("mark", .null), ("note", .text "no!")]⟩ := by
    with_unfolding_all rfl
  have hperm : host.Perm host.reverse := (List.reverse_perm host).symm
  obtain ⟨hextended, hreordered⟩ := run_ignores_unmentioned (w := w) hdistinct 1
  exact ⟨hdistinct, hnew, havoids, hrun, hextended _ _ hnew havoids, hperm, hreordered _ hperm⟩

end Workspace
end Blockwork
