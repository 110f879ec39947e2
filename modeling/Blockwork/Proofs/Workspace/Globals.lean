import Blockwork.Proofs.Entries
import Blockwork.Proofs.Traversal
import Blockwork.Proofs.Workspace.Building

/-! The chains of the declared variables. Each of them assigns a variable to itself: where the host has
bound it, nothing changes, and where not, it comes to be bound to null behind all others. -/

namespace Blockwork

/-! ### One declaration -/

def Declaration.block (d : Declaration) : Block Kind :=
  let id := d.id.getD ("global:" ++ d.name)
  let value : Block Kind := ⟨.get, "variables_get", id ++ ":value", [("VAR", d.name)], [], [], [], []⟩
  ⟨.set, "variables_set", id, [("VAR", d.name)], [⟨"VALUE", [value]⟩], [], [], []⟩

theorem buildChain_declaration (names : Entries String) (d : Declaration) :
    buildChain (Registry.standard id) names d.chain = .ok [d.block] := rfl

theorem evaluateChain_declaration (limit : Nat) (d : Declaration) (c : Context Value) :
    outcome (evaluateChain limit [d.block]) c =
      (.ok .null, c.set d.name ((c.get? d.name).getD .null)) := rfl

/-- The context of a host: its bindings, no scope above them and no escape. -/
def Context.hosting (bindings : Entries Value) : Context Value :=
  { inner := [], root := { bindings, escape := .none } }

theorem Context.set_own_value (bindings : Entries Value) (name : String) :
    (hosting bindings).set name (((hosting bindings).get? name).getD .null) =
      hosting (if name ∈ bindings.names then bindings else bindings ++ [(name, .null)]) := by
  have hcurrent : (hosting bindings).current.bindings = bindings := rfl
  have hset : ∀ v, (hosting bindings).setCurrent name v = hosting (bindings.put name v) :=
    fun _ => rfl
  have hroot : (hosting bindings).root.bindings = bindings := rfl
  have hget : (hosting bindings).get? name = bindings.get? name := by
    unfold Context.get?
    rw [hcurrent, hroot]
    cases bindings.get? name <;> rfl
  unfold Context.set
  rw [hcurrent, hroot, hget]
  -- The current scope is the root itself, so both places to write to are one.
  split
  · rename_i h
    have hname : name ∈ bindings.names := Entries.contains_iff.1 h
    obtain ⟨v, hv⟩ := Option.ne_none_iff_exists'.1 fun hnone => Entries.get?_eq_none.1 hnone hname
    rw [hv, if_pos hname, hset, Option.getD_some, Entries.put_of_get? hv]
  · rename_i h
    have hname : name ∉ bindings.names := fun hmem => h (Entries.contains_iff.2 hmem)
    rw [Entries.get?_eq_none.2 hname, if_neg hname, hset, Option.getD_none,
      Entries.put_of_not_mem hname]

/-! ### All declarations -/

/-- The names that are not bound yet, each once in the order in which they first come up. -/
def newNames (declarations : List Declaration) (bindings : Entries Value) : List String :=
  ((declarations.map Declaration.name).filter fun name => name ∉ bindings.names).eraseDups

def withDeclared (declarations : List Declaration) (bindings : Entries Value) : Entries Value :=
  bindings ++ (newNames declarations bindings).map fun name => (name, .null)

theorem withDeclared_nil (bindings : Entries Value) : withDeclared [] bindings = bindings :=
  List.append_nil bindings

theorem withDeclared_cons (d : Declaration) (rest : List Declaration) (bindings : Entries Value) :
    withDeclared (d :: rest) bindings = withDeclared rest
      (if d.name ∈ bindings.names then bindings else bindings ++ [(d.name, .null)]) := by
  unfold withDeclared newNames
  by_cases hname : d.name ∈ bindings.names
  · rw [List.map_cons, List.filter_cons_of_neg (by simpa using hname), if_pos hname]
  · have hnames : Entries.names (bindings ++ [(d.name, .null)]) = bindings.names ++ [d.name] :=
      List.map_append
    have hrest : ((rest.map Declaration.name).filter fun name => name ∉ bindings.names ++ [d.name]) =
        (((rest.map Declaration.name).filter fun name => name ∉ bindings.names).filter
          fun name => !name == d.name) := by
      rw [List.filter_filter]
      refine List.filter_congr fun name _ => ?_
      by_cases h : name = d.name <;> simp [h, hname]
    rw [List.map_cons, List.filter_cons_of_pos (by simpa using hname), if_neg hname,
      List.eraseDups_cons, List.map_cons, hnames, hrest, List.append_assoc, List.singleton_append]

def evaluateEach (limit : Nat) : List (List (Block Kind)) → Run Unit
  | [] => return ()
  | chain :: rest => do
    let _ ← evaluateChain limit chain
    evaluateEach limit rest

theorem evaluateEach_declarations (limit : Nat) (declarations : List Declaration)
    (bindings : Entries Value) :
    outcome (evaluateEach limit (declarations.map fun d => [d.block])) (.hosting bindings) =
      (.ok (), .hosting (withDeclared declarations bindings)) := by
  induction declarations generalizing bindings with
  | nil => rw [withDeclared_nil]; rfl
  | cons d rest ih =>
    rw [List.map_cons, evaluateEach, outcome_bind, evaluateChain_declaration,
      Context.set_own_value, withDeclared_cons]
    exact ih _

/-- The run of a workspace goes on behind the declarations from the bindings that they leave. -/
theorem evaluateFrom_declarations (limit : Nat) (declarations : List Declaration)
    (rest : List (List (Block Kind))) (bindings : Entries Value) :
    outcome (Workspace.evaluateFrom limit .null ((declarations.map fun d => [d.block]) ++ rest))
        (.hosting bindings) =
      outcome (Workspace.evaluateFrom limit .null rest)
        (.hosting (withDeclared declarations bindings)) := by
  induction declarations generalizing bindings with
  | nil => rw [withDeclared_nil]; rfl
  | cons d others ih =>
    rw [List.map_cons, List.cons_append, Workspace.evaluateFrom, outcome_bind,
      evaluateChain_declaration, Context.set_own_value, withDeclared_cons]
    exact ih _

/-! ### Workspaces -/

theorem declarations_first {names : Entries String} {declarations : List Declaration}
    {others : List (List Entry)} {chains : List (List (Block Kind))}
    (h : List.Forall₂ (fun chain blocks =>
        buildChain (Registry.standard id) names chain = .ok blocks)
      (declarations.map Declaration.chain ++ others) chains) :
    ∃ rest, chains = (declarations.map fun d => [d.block]) ++ rest := by
  induction declarations generalizing chains with
  | nil => exact ⟨chains, rfl⟩
  | cons d declarations ih =>
    obtain ⟨blocks, chains, hblocks, hchains, rfl⟩ := List.forall₂_cons_left_iff.1 h
    obtain ⟨rest, rfl⟩ := ih hchains
    obtain rfl := Except.ok.inj ((buildChain_declaration names d).symm.trans hblocks)
    exact ⟨rest, rfl⟩

/-- The bindings of a host: each name once, where it first stands, with its last value. -/
def hostBindings (globals : List (String × Value)) : Entries Value :=
  (Entries.names globals).eraseDups.map fun name =>
    (name, (Entries.get? globals.reverse name).getD .null)

theorem ofBindings_eq (globals : List (String × Value)) :
    (Context.ofBindings globals : Context Value) = .hosting (hostBindings globals) := by
  have hbindings : Entries.ofList globals = hostBindings globals := by
    rw [← Entries.map_names_get? (Entries.nodup_names_ofList globals) .null, Entries.names_ofList]
    simp only [Entries.get?_ofList, hostBindings]
  rw [Context.ofBindings, hbindings]
  rfl

/-- The chains of the declared variables never fail, and they leave the host's bindings in their order
and with their values. Behind these come the declared names that the host does not bind, each once in
the order of the declarations, with null; no scope is open and no escape is pending. So the run of the
whole workspace is that of the other chains from these bindings. -/
theorem declarations_keep_host_bindings {g : Graph} {w : Workspace Kind}
    (h : Workspace.ofGraph (Registry.standard id) g = .ok w) (limit : Nat)
    (globals : List (String × Value)) :
    let c : Context Value :=
      { inner := []
        root := {
          bindings := hostBindings globals ++
            ((g.declarations.map Declaration.name).filter
              fun name => name ∉ Entries.names globals).eraseDups.map fun name => (name, .null)
          escape := .none } }
    outcome (evaluateEach limit (w.chains.take g.declarations.length)) (.ofBindings globals) =
        (.ok (), c) ∧
      outcome (w.evaluate limit) (.ofBindings globals) =
        outcome (Workspace.evaluateFrom limit .null (w.chains.drop g.declarations.length)) c := by
  intro c
  obtain ⟨rest, hchains⟩ := declarations_first (ofGraph_eq_ok.1 h).2
  have hlength : g.declarations.length = (g.declarations.map fun d => [d.block]).length := by
    rw [List.length_map]
  have hnames : (hostBindings globals).names = (Entries.names globals).eraseDups := by
    simp [hostBindings, Entries.names, Function.comp_def]
  have hc : c = .hosting (withDeclared g.declarations (hostBindings globals)) := by
    unfold withDeclared newNames
    simp only [hnames, List.mem_eraseDups]
    rfl
  rw [ofBindings_eq, hc, Workspace.evaluate, hchains, hlength, List.take_left, List.drop_left]
  exact ⟨evaluateEach_declarations limit _ _, evaluateFrom_declarations limit _ _ _⟩

def sharedNames : Graph :=
  { declarations := [{ name := "a" }, { name := "b", id := some "v" }, { name := "a" }, { name := "c" }]
    blocks := [[{
      kind := "variables_get", id := "g", fields := [("VAR", .object [("id", .string "v")])] }]] }

theorem sharedNames_keep_host_bindings : ∃ w,
    Workspace.ofGraph (Registry.standard id) sharedNames = .ok w ∧ ∀ limit,
      outcome (evaluateEach limit (w.chains.take 4))
          (.ofBindings [("b", .boolean false), ("z", .text "t"), ("b", .boolean true)]) =
        (.ok (), { root := { bindings :=
          [("b", .boolean true), ("z", .text "t"), ("a", .null), ("c", .null)] } }) := by
  have hbuilt : (Workspace.ofGraph (Registry.standard (id : Kind → Kind))
      sharedNames).toOption.isSome = true := by decide +kernel
  cases h : Workspace.ofGraph (Registry.standard (id : Kind → Kind)) sharedNames with
  | error e =>
    rw [h] at hbuilt
    exact absurd hbuilt Bool.false_ne_true
  | ok w => exact ⟨w, rfl, fun limit => (declarations_keep_host_bindings h limit _).1⟩

end Blockwork
