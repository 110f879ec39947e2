import Blockwork.Proofs.Graph.Damage
import Blockwork.Proofs.Graph.Offsets
import Blockwork.Proofs.Json.Verdicts

/-! What the error of a graph that cannot be loaded tells of its source. A fault of shape is found as
soon as the text leaves the form of a graph, so the text need not be well-formed behind it. -/

namespace Blockwork

open Json

variable {document document' : Document}

/-- Whoever reads the document finds the damage, if nothing else is wrong before. -/
theorem Json.Document.Damaged.foretells {α : Type} {read : Node → Except Fault α}
    (h : document.Damaged document') (hread : ForetellsAll read) :
    Foretells true (do let a ← read document.root; succeedUnless document.trailing; return a)
      (do let a ← read document'.root; succeedUnless document'.trailing; return a) := by
  cases h with
  | inside h => exact (hread.alike h).bind_damaged
  | behind h htrailing hill =>
    refine (hread.alike h).bind fun a _ => ?_
    rw [htrailing]
    exact .damage hill _

theorem graph_read_damaged {source source' : String}
    (h : (Document.ofText source).Damaged (Document.ofText source')) :
    Foretells true (Graph.read source) (Graph.read source') :=
  h.foretells (graphForm_foretells.read {})

theorem graph_read_sound {source : String} {root : Node}
    (hroot : Document.ofText source = ⟨root, none⟩) (halike : Node.Alike false root root) :
    Foretells false (Graph.read source) (Graph.read source) := by
  have hread : Graph.read source = graphForm.read {} root := by
    rw [Graph.read, hroot]
    dsimp only
    cases graphForm.read {} root <;> rfl
  rw [hread]
  exact (graphForm_foretells.read {}).alike halike

structure Json.Fault.Tells (source : String) (f : Fault) : Prop where
  /-- A well-formed text is only called ill-formed if something in it is refused. -/
  wellFormed (h : f.cause.isSyntax = true) (hof : IsWellFormed source) : f.cause.refuses = true
  /-- Up to the fault at least, the text could be well-formed, and fail alike. -/
  shape (h : f.cause.isSyntax = false) : ∃ front rest back, source = front ++ rest ∧
    f.offset ≤ front.utf8ByteSize + 1 ∧ IsWellFormed (front ++ back) ∧
    ∃ f', Graph.read (front ++ back) = .error f' ∧ f'.cause = f.cause

theorem Json.Foretells.exists_shape {α : Type} {damaged : Bool} {f : Fault} {x : Except Fault α}
    (h : Foretells damaged (.error f) x) (hshape : f.cause.isSyntax = false) :
    ∃ f', x = .error f' ∧ f'.cause = f.cause ∧ f.offset ≤ f'.offset + 1 := by
  have hsyntax : f.cause.isSyntax ≠ true := by simp [hshape]
  cases h with
  | damage h => exact absurd h hsyntax
  | refusal h => exact absurd (Cause.isSyntax_of_refuses h) hsyntax
  | shape _ hcause hoffset => exact ⟨_, rfl, hcause, hoffset⟩

theorem graph_read_tells {source : String} {f : Fault} (hread : Graph.read source = .error f) :
    f.Tells source := by
  cases verdict source with
  | sound hof hroot halike =>
    have hforetells := graph_read_sound hroot halike
    rw [hread] at hforetells
    refine ⟨fun hsyntax _ => ?_, fun _ => ⟨source, "", "", ?_⟩⟩
    · cases hforetells with
      | refusal h => exact h
      | shape h => exact absurd hsyntax (by simp [h])
    · rw [String.append_empty]
      exact ⟨rfl, Nat.le_succ_of_le (graph_read_within source f hread), hof, f, hread, rfl⟩
  | @damaged front rest back hsource hof hback hfront =>
    refine ⟨fun _ hsource => absurd hsource hback.not_isWellFormed, fun hshape => ?_⟩
    -- The completion shows that the cause stands; the beginning alone shows how far it is found.
    have hback := graph_read_damaged hback
    have hfront := graph_read_damaged hfront
    rw [hread] at hback hfront
    obtain ⟨f', hf', hcause, -⟩ := hback.exists_shape hshape
    obtain ⟨cut, hcut, -, hoffset⟩ := hfront.exists_shape hshape
    have hwithin := graph_read_within front cut hcut
    exact ⟨front, rest, back, hsource, by omega, hof, f', hf', hcause⟩

theorem graph_read_isWellFormed {source : String} {graph : Graph}
    (hread : Graph.read source = .ok graph) : IsWellFormed source := by
  cases verdict source with
  | sound hof => exact hof
  | damaged _ _ _ hfront =>
    have hforetells := graph_read_damaged hfront
    rw [hread] at hforetells
    exact nomatch hforetells

/-! ### Loading -/

theorem load_of_read_error {source : String} {f : Fault} (hread : Graph.read source = .error f)
    (file : Nat) : Graph.load source file = .error (.ofFault source file f) := by
  rw [Graph.load, hread]

theorem read_ok_of_load {source : String} {file : Nat} {graph : Graph}
    (hload : Graph.load source file = .ok graph) : Graph.read source = .ok graph := by
  cases hread : Graph.read source with
  | ok g =>
    rw [Graph.load, hread] at hload
    rw [Except.ok.inj hload]
  | error f => exact nomatch (load_of_read_error hread file).symm.trans hload

theorem exists_fault_of_load {source : String} {file : Nat} {e : LoadError}
    (hload : Graph.load source file = .error e) :
    ∃ f, Graph.read source = .error f ∧ e = .ofFault source file f := by
  cases hread : Graph.read source with
  | ok g =>
    rw [Graph.load, hread] at hload
    exact nomatch hload
  | error f =>
    exact ⟨f, rfl, Except.error.inj (hload.symm.trans (load_of_read_error hread file))⟩

/-- What is loaded is well-formed. A well-formed text is only called ill-formed if something in it is
refused; and a text that is said to have the wrong shape could be well-formed up to that place at least,
and have it still. -/
theorem load_wellFormed (source : String) (file : Nat) :
    (∀ graph, Graph.load source file = .ok graph → IsWellFormed source) ∧
    ∀ cause place span number,
      Graph.load source file = .error (.malformed cause place span number) →
        (cause.isSyntax = true → IsWellFormed source → cause.refuses = true) ∧
        (cause.isSyntax = false → ∃ front rest back offset, source = front ++ rest ∧
          place = Place.ofOffset source offset ∧ offset ≤ front.utf8ByteSize + 1 ∧
          IsWellFormed (front ++ back) ∧ ∃ place' span',
            Graph.load (front ++ back) file = .error (.malformed cause place' span' number)) := by
  refine ⟨fun graph hload => graph_read_isWellFormed (read_ok_of_load hload),
    fun cause place span number hload => ?_⟩
  obtain ⟨f, hread, he⟩ := exists_fault_of_load hload
  have htells := graph_read_tells hread
  cases he
  refine ⟨htells.wellFormed, fun hshape => ?_⟩
  obtain ⟨front, rest, back, hsource, hoffset, hof, f', hread', hcause⟩ := htells.shape hshape
  have hload' := load_of_read_error hread' file
  rw [LoadError.ofFault, hcause] at hload'
  exact ⟨front, rest, back, f.offset, hsource, rfl, hoffset, hof, _, _, hload'⟩

def unclosed : String := "\x7b\"blocks\":5"

theorem unclosed_load : ∃ cause span,
    Graph.load unclosed 0 = .error (.malformed cause ⟨1, 11⟩ span 0) ∧
    cause.isSyntax = false ∧ ¬ IsWellFormed unclosed := by
  have hfault : ((Graph.read unclosed).mapError fun f => (f.offset, f.cause.isSyntax)).map
      (fun _ => ()) = .error (11, false) := by
    decide +kernel
  have hskip : (Document.ofText unclosed).root.skip.toOption = none := by decide +kernel
  cases hread : Graph.read unclosed with
  | ok graph =>
    rw [hread] at hfault
    cases hfault
  | error f =>
    rw [hread] at hfault
    obtain ⟨hoffset, hsyntax⟩ := Prod.mk.inj (Except.error.inj hfault)
    have hload := load_of_read_error hread 0
    rw [LoadError.ofFault, hoffset] at hload
    refine ⟨f.cause, _, hload, hsyntax, fun hof => ?_⟩
    obtain ⟨root, hroot, hskips⟩ := hof.skip
    rw [hroot, hskips] at hskip
    exact nomatch hskip

end Blockwork
