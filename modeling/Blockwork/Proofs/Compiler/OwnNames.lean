import Blockwork.Proofs.Compiler.ForLoops
import Blockwork.Proofs.Compiler.Names
import Blockwork.Proofs.Compiler.Unassigned

/-! The names that belong to a compiled loop. What the blocks below a loop do not bring, its body does
not assign. Counters are named after the depth, so no loop below has the same ones. The bounds of a
range are named after its variable: they are safe as long as no block below has such a name for its
own variable or takes the same variable through another range. -/

namespace Blockwork

open Target
open Parts (counterName)

theorem Block.Fills.not_mem_assigned {b : Block Kind} {depth : Nat} {body : List Stmt} {name : String}
    (h : b.Fills depth body)
    (hspares : ∀ s ∈ b.statements, Block.AllOf (Block.SparesName name depth) s.chain) :
    name ∉ bodyAssigned body := by
  obtain rfl | ⟨s, hs, κ, κ', hκ, hbody⟩ := h
  · exact List.not_mem_nil
  · exact not_mem_bodyAssigned (hspares s hs) hκ.ge hbody

/-! ### Counters -/

/-- The variable of the block is none that a repetition brings. -/
def Block.AvoidsCounters (b : Block Kind) : Prop :=
  ∀ v ∈ b.fields.get? "VAR", ∀ k, v ∉ counterNames k

theorem Block.AvoidsCounters.spares {b : Block Kind} (h : b.AvoidsCounters) {depth : Nat}
    {name : String} (hname : name ∈ counterNames depth) : b.SparesName name (depth + 1) := by
  intro k hk hbrings
  unfold Block.brings Kind.brings at hbrings
  split at hbrings
  case h_1 | h_2 | h_3 | h_4 => exact h name (Option.mem_toList.1 hbrings) depth hname
  case h_5 =>
    obtain ⟨v, hv, hbrings⟩ := List.mem_flatMap.1 hbrings
    have hvariable := h v (Option.mem_toList.1 hv) depth
    rcases List.mem_cons.1 hbrings with rfl | hrange
    · exact hvariable hname
    · refine counterNames_range ?_ hname hrange
      rintro rfl
      exact hvariable (List.mem_cons_self ..)
  case h_6 => exact counterNames_disjoint (by omega) hname hbrings
  case h_7 => exact absurd hbrings List.not_mem_nil

namespace Workspace

/-- Every loop of a program counts rounds or goes through a range, and one that starts at a number is a
repetition. Its bound is a number or the variable that it has for it, and its body assigns neither that
nor the counter, so that no loop of the body has the same counter. -/
theorem counters_of_compiled {w : Workspace Kind} {program : Program} (h : w.compile = .ok program)
    (hnames : ∀ chain ∈ w.chains, Block.AllOf Block.AvoidsCounters chain) :
    ∀ loop ∈ bodyForLoops program.body,
      ((∃ depth bound, loop = .counting (counterName depth) bound loop.body) ∨
        ∃ v, loop = .ranging v loop.body) ∧
      ∀ counter n, loop.start = .assign counter (.number n) →
        ∃ depth bound, loop = .counting (counterName depth) bound loop.body ∧
          (bound.isNumber = true ∨ bound = .variable (counterName depth ++ "_end")) ∧
          (∀ name ∈ counterNames depth, name ∉ bodyAssigned loop.body) ∧
          ∀ inner ∈ bodyForLoops loop.body, ∀ m, inner.start ≠ .assign counter (.number m) := by
  refine allLoops_compile (H := Block.AvoidsCounters) ?_ h hnames
  intro b hb depth body loop hfills hbecomes
  cases hbecomes with
  | @ranging v => exact ⟨.inr ⟨v, rfl⟩, fun _ _ hstart => absurd hstart (by simp [ForLoop.ranging])⟩
  | @counting source bound _ hbound =>
    refine ⟨.inl ⟨depth, bound, rfl⟩, fun counter n hstart => ?_⟩
    have hunassigned : ∀ name ∈ counterNames depth, name ∉ bodyAssigned body := fun name hname =>
      hfills.not_mem_assigned fun s hs =>
        ((Block.all_iff.1 hb).2.2 s hs).mono fun c hc => hc.spares hname
    obtain ⟨rfl, -⟩ := Expr.assign.inj hstart
    refine ⟨depth, bound, rfl, hbound, hunassigned, fun inner hinner m hm => ?_⟩
    refine hunassigned _ (List.mem_cons_self ..) (mem_bodyAssigned_of_start ?_ body hinner)
    rw [hm]
    exact List.mem_cons_self ..

def nestedCounts : Workspace Kind :=
  let times : Block Kind := ⟨.get, "variables_get", "g", [("VAR", "n")], [], [], [], []⟩
  let letter : Block Kind := ⟨.text, "text", "t", [("TEXT", "a")], [], [], [], []⟩
  let append : Block Kind :=
    ⟨.append, "text_append", "a", [("VAR", "x")], [⟨"TEXT", [letter]⟩], [], [], []⟩
  let inner : Block Kind := ⟨.repeatTimes .field, "controls_repeat", "i", [("TIMES", "2")], [],
    [⟨"DO", [append]⟩], [], []⟩
  ⟨[[⟨.repeatTimes .input, "controls_repeat_ext", "o", [], [⟨"TIMES", [times]⟩],
    [⟨"DO", [inner]⟩], [], []⟩]]⟩

theorem nestedCounts_counters : ∃ program, nestedCounts.compile = .ok program ∧
    (bodyForLoops program.body).map ForLoop.start =
      [.assign "count0" (.num 0), .assign "count1" (.num 0)] ∧
    ∀ loop ∈ bodyForLoops program.body,
      ((∃ depth bound, loop = .counting (counterName depth) bound loop.body) ∨
        ∃ v, loop = .ranging v loop.body) ∧
      ∀ counter n, loop.start = .assign counter (.number n) →
        ∃ depth bound, loop = .counting (counterName depth) bound loop.body ∧
          (bound.isNumber = true ∨ bound = .variable (counterName depth ++ "_end")) ∧
          (∀ name ∈ counterNames depth, name ∉ bodyAssigned loop.body) ∧
          ∀ inner ∈ bodyForLoops loop.body, ∀ m, inner.start ≠ .assign counter (.number m) := by
  have hnames : ∀ chain ∈ nestedCounts.chains, Block.AllOf Block.AvoidsCounters chain := by
    have hheads : ∀ chain ∈ nestedCounts.chains, Block.AllOf
        (fun b => ∀ v ∈ b.fields.get? "VAR", v.toList.head? ≠ some 'c') chain := by decide
    exact fun chain hchain => (hheads chain hchain).mono fun b hb v hv k hname =>
      hb v hv (head?_counterNames hname)
  have hstarts : nestedCounts.compile.toOption.map
      (fun program => (bodyForLoops program.body).map ForLoop.start) =
        some [.assign "count0" (.num 0), .assign "count1" (.num 0)] := by with_unfolding_all rfl
  cases hcompile : nestedCounts.compile with
  | error failure =>
    rw [hcompile] at hstarts
    exact absurd hstarts (Option.some_ne_none _).symm
  | ok program =>
    rw [hcompile] at hstarts
    exact ⟨program, rfl, Option.some.inj hstarts, counters_of_compiled hcompile hnames⟩

end Workspace

/-! ### Ranges -/

theorem ne_of_mem_rangeNames {v name : String} (h : name ∈ rangeNames v) : name ≠ v := by
  have happend : ∀ t : String, 0 < t.length → v ++ t ≠ v := fun t ht heq => by
    have hlength := congrArg String.length heq
    rw [String.length_append] at hlength
    omega
  simp only [rangeNames, List.mem_cons, List.not_mem_nil, or_false] at h
  rcases h with rfl | rfl | rfl <;> exact happend _ (by decide)

def Kind.assignsVariable : Kind → Bool
  | .change | .append | .set | .forEach | .countRange => true
  | _ => false

/-- The block leaves alone the bounds and the step of a range over the variable. -/
structure Block.AvoidsRange (v : String) (b : Block Kind) : Prop where
  own : b.kind.assignsVariable = true → ∀ w ∈ b.fields.get? "VAR", w ∉ rangeNames v
  range : b.kind = .countRange → b.fields.get? "VAR" ≠ some v
  counter : ∀ source, b.kind = .repeatTimes source → ∀ k, v ≠ counterName k

theorem Block.AvoidsRange.spares {b : Block Kind} {v name : String} (h : b.AvoidsRange v)
    (hname : name ∈ rangeNames v) (floor : Nat) : b.SparesName name floor := by
  intro k _ hbrings
  unfold Block.brings Kind.brings at hbrings
  split at hbrings
  case h_1 hkind | h_2 hkind | h_3 hkind | h_4 hkind =>
    exact h.own (by rw [hkind]; rfl) name (Option.mem_toList.1 hbrings) hname
  case h_5 hkind =>
    obtain ⟨w, hw, hbrings⟩ := List.mem_flatMap.1 hbrings
    have hw := Option.mem_toList.1 hw
    rcases List.mem_cons.1 hbrings with rfl | hrange
    · exact h.own (by rw [hkind]; rfl) name hw hname
    · refine rangeNames_disjoint ?_ hname hrange
      rintro rfl
      exact h.range hkind hw
  case h_6 source hkind => exact counterNames_range (h.counter source hkind k) hbrings hname
  case h_7 => exact absurd hbrings List.not_mem_nil

/-- If the block counts through a range, no block below it touches that range. -/
def Block.KeepsRange (b : Block Kind) : Prop :=
  b.kind = .countRange → ∀ v ∈ b.fields.get? "VAR",
    ∀ s ∈ b.statements, Block.AllOf (Block.AvoidsRange v) s.chain

namespace Workspace

/-- A loop of a program that starts at another variable's value goes through a range. If no block
below it touches that range, its body assigns neither the bounds nor the step, and they are the same
after the loop as before it. -/
theorem ranges_of_compiled {w : Workspace Kind} {program : Program} (h : w.compile = .ok program)
    (hranges : ∀ chain ∈ w.chains, Block.AllOf Block.KeepsRange chain) :
    ∀ loop ∈ bodyForLoops program.body, ∀ v, loop.start = .assign v (.variable (v ++ "_start")) →
      loop = .ranging v loop.body ∧ (∀ name ∈ rangeNames v, name ∉ bodyAssigned loop.body) ∧
        ∀ limit σ e σ', loop.stmt.exec limit σ = some (e, σ') →
          ∀ name ∈ rangeNames v, σ'.get? name = σ.get? name := by
  refine allLoops_compile (H := Block.KeepsRange) ?_ h hranges
  intro b hb depth body loop hfills hbecomes v hstart
  cases hbecomes with
  | counting => exact absurd hstart (by simp [ForLoop.counting, Expr.num])
  | @ranging target hkind htarget =>
    obtain ⟨rfl, -⟩ := Expr.assign.inj hstart
    obtain ⟨hkeeps, -, -⟩ := Block.all_iff.1 hb
    have hunassigned : ∀ name ∈ rangeNames target, name ∉ bodyAssigned body := fun name hname =>
      hfills.not_mem_assigned fun s hs =>
        (hkeeps hkind target htarget s hs).mono fun c hc => hc.spares hname _
    refine ⟨rfl, hunassigned, fun limit σ e σ' hexec name hname => ?_⟩
    refine Stmt.get?_exec limit _ ?_ hexec
    have hne := ne_of_mem_rangeNames hname
    simp [ForLoop.stmt, ForLoop.ranging, Stmt.assigned, rangeCondition, rangeUpdate, Expr.assigned,
      Expr.num, hne, hunassigned name hname]

theorem partialSum_keeps_range : ∃ program, partialSum.compile = .ok program ∧
    (bodyForLoops program.body).length = 1 ∧
    ∀ loop ∈ bodyForLoops program.body, ∀ v, loop.start = .assign v (.variable (v ++ "_start")) →
      loop = .ranging v loop.body ∧ (∀ name ∈ rangeNames v, name ∉ bodyAssigned loop.body) ∧
        ∀ limit σ e σ', loop.stmt.exec limit σ = some (e, σ') →
          ∀ name ∈ rangeNames v, σ'.get? name = σ.get? name := by
  have hranges : ∀ chain ∈ partialSum.chains, Block.AllOf Block.KeepsRange chain := by
    have hdecided : ∀ chain ∈ partialSum.chains, Block.AllOf (fun b =>
        (b.kind = .countRange → b.fields.get? "VAR" = some "i") ∧ ∀ s ∈ b.statements,
          Block.AllOf (fun c => decide ((∀ w ∈ c.fields.get? "VAR", w ∉ rangeNames "i") ∧
            c.kind ≠ .countRange) = true) s.chain) chain := by decide
    refine fun chain hchain => (hdecided chain hchain).mono fun b hb hkind v hv s hs => ?_
    obtain ⟨hvariable, hbodies⟩ := hb
    replace hvariable := hvariable hkind
    obtain rfl := Option.some.inj (hvariable.symm.trans hv)
    have hhead : ∀ k, "i" ≠ counterName k := fun k heq => by
      have hcounter := head?_counterNames (k := k) (List.mem_cons_self ..)
      exact absurd (heq ▸ hcounter) (by decide)
    refine (hbodies s hs).mono fun c hc => ?_
    obtain ⟨hown, hkind⟩ := of_decide_eq_true hc
    exact ⟨fun _ => hown, fun h => absurd h hkind, fun _ _ => hhead⟩
  have hcount : partialSum.compile.toOption.map
      (fun program => (bodyForLoops program.body).length) = some 1 := by decide +kernel
  cases hcompile : partialSum.compile with
  | error failure =>
    rw [hcompile] at hcount
    exact absurd hcount (Option.some_ne_none _).symm
  | ok program =>
    rw [hcompile] at hcount
    exact ⟨program, rfl, Option.some.inj hcount, ranges_of_compiled hcompile hranges⟩

/-- A range whose rounds move its end to its start. -/
def movedEnd : Workspace Kind :=
  let read (name : String) : Block Kind := ⟨.get, "variables_get", "g", [("VAR", name)], [], [], [], []⟩
  let letter : Block Kind := ⟨.text, "text", "t", [("TEXT", "a")], [], [], [], []⟩
  let move : Block Kind :=
    ⟨.set, "variables_set", "s", [("VAR", "i_end")], [⟨"VALUE", [read "first"]⟩], [], [], []⟩
  let append : Block Kind :=
    ⟨.append, "text_append", "a", [("VAR", "x")], [⟨"TEXT", [letter]⟩], [], [], []⟩
  ⟨[[⟨.countRange, "controls_for", "r", [("VAR", "i")],
    [⟨"FROM", [read "first"]⟩, ⟨"TO", [read "last"]⟩, ⟨"BY", [read "first"]⟩],
    [⟨"DO", [move, append]⟩], [], []⟩]]⟩

def movedEndBindings : List (String × Value) :=
  [("first", .number 1), ("last", .number 3), ("x", .text "")]

/-- The run goes round three times. The program assigns to its own end and goes round once. -/
theorem movedEnd_ends_early : ∃ e program loop σ,
    movedEnd.run 4 movedEndBindings = .ok e ∧
      (e.bindings.get? "x").map Value.display = some "aaa" ∧
      movedEnd.compile = .ok program ∧ loop ∈ bodyForLoops program.body ∧
      loop.start = .assign "i" (.variable ("i" ++ "_start")) ∧ "i_end" ∈ bodyAssigned loop.body ∧
      execBody 4 program.body (storeOf movedEndBindings) = some (.none, σ) ∧
      (σ.get? "x").map Target.Value.display = some "a" := by
  let appended : Expr := .binary .add (Expr.binary .coalesce (.variable "x") (.text "")).toText
    (Expr.text "a").toText
  let loop : ForLoop := .ranging "i"
    [.expr (.assign "i_end" (.variable "first")), .expr (.assign "x" appended)]
  let program : Program := ⟨["i_start", "i_end", "i_inc", "i", "x"],
    rangeStart "i" (.variable "first") (.variable "last") (.variable "first") ++ [loop.stmt]⟩
  have hcompile : movedEnd.compile = .ok program := by with_unfolding_all rfl
  have hrun : (movedEnd.run 4 movedEndBindings).toOption.map
      (fun e => (e.bindings.get? "x").map Value.display) = some (some "aaa") := by decide +kernel
  have hexec : (execBody 4 program.body (storeOf movedEndBindings)).map
      (fun r => (r.1, (r.2.get? "x").map Target.Value.display)) = some (.none, some "a") := by
    decide +kernel
  obtain ⟨⟨ends, σ⟩, hσ, hx⟩ := Option.map_eq_some_iff.1 hexec
  obtain ⟨rfl, hx⟩ := Prod.mk.inj hx
  cases hresult : movedEnd.run 4 movedEndBindings with
  | error halt =>
    rw [hresult] at hrun
    exact absurd hrun (Option.some_ne_none _).symm
  | ok e =>
    rw [hresult] at hrun
    exact ⟨e, program, loop, σ, rfl, Option.some.inj hrun, hcompile, List.mem_cons_self .., rfl,
      List.mem_cons_self .., hσ, hx⟩

end Workspace
end Blockwork
