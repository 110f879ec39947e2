import Blockwork.Compiler.Chain
import Blockwork.Interpreter.Chain
import Blockwork.Registry

/-! Workspaces: the chains of a program with a kind for every block. -/

namespace Blockwork

open Target

structure Workspace (κ : Type) where
  chains : List (List (Block κ))

/-! ### Building -/

/-- The text of a mutation; texts are taken as they are, and null is empty. -/
def mutationText : Json → String
  | .string s => s
  | .null => ""
  | j => j.render

/-- A member with members of its own is a group of mutations, with its key as the domain. -/
def mutationsOf : Entries Json → List Mutation
  | [] => []
  | (key, .object members) :: rest =>
    members.map (fun (name, value) => ⟨key, name, mutationText value⟩) ++ mutationsOf rest
  | (key, value) :: rest => ⟨plainDomain, key, mutationText value⟩ :: mutationsOf rest

/-- The names of the declared variables by their ids; a repeated id stands for the last one. -/
def variableNames (declarations : List Declaration) : Entries String :=
  Entries.ofList (declarations.filterMap fun d => d.id.map fun id => (id, d.name))

def fieldText (names : Entries String) : Json → Except FieldFlaw String
  | .string s => .ok s
  | .int n => .ok (Json.intText n)
  | .float x => .ok (Json.floatText x)
  | .bool b => .ok (if b then "TRUE" else "FALSE")
  | .object members =>
    match members.lookup "name", members.lookup "id" with
    | some (.string name), _ => .ok name
    | _, some (.string id) =>
      match names.get? id with
      | some name => .ok name
      | none => .error (.undeclared id)
    | _, _ => .error .noReference
  | .null | .array _ => .error .notLiteral

def fieldTexts (names : Entries String) (kind id : String) :
    Entries Json → Except EngineError (Entries String)
  | [] => .ok []
  | (name, value) :: rest =>
    match fieldText names value with
    | .error flaw => .error (.malformed (.badField kind id name flaw))
    | .ok text => do return (name, text) :: (← fieldTexts names kind id rest)

def checkSlot (kind id name : String) (before : List String) : Except EngineError Unit :=
  if name.isEmpty then .error (.malformed (.unnamedSlot kind id))
  else if before.contains name then .error (.malformed (.repeatedSlot kind id name))
  else .ok ()

section Build

variable {κ : Type} (registry : Registry κ) (names : Entries String)

mutual

def buildBlock : Entry → Except EngineError (Block κ)
  | ⟨tag, id, fields, inputs, statements, comment, mutation⟩ => do
    if tag.isEmpty then throw (.malformed (.untypedBlock id))
    let kind ← registry.find tag
    let fields ← fieldTexts names tag id fields
    let values ← buildSockets tag id [] inputs
    let statements ← buildSockets tag id [] statements
    return { kind, tag, id, fields, values, statements
             mutations := mutationsOf mutation
             comments := comment.toList }

def buildChain : List Entry → Except EngineError (List (Block κ))
  | [] => .ok []
  | entry :: rest => do
    let block ← buildBlock entry
    return block :: (← buildChain rest)

def buildSockets (tag id : String) (before : List String) :
    List Slot → Except EngineError (List (Socket κ))
  | [] => .ok []
  | ⟨name, block, shadow⟩ :: rest => do
    checkSlot tag id name before
    let chain ← if block.isEmpty then buildChain shadow else buildChain block
    return ⟨name, chain⟩ :: (← buildSockets tag id (name :: before) rest)

end

end Build

/-- A chain that assigns a declared variable to itself: so it is bound, and a value from the host
stays. -/
def Declaration.chain (d : Declaration) : List Entry :=
  let id := d.id.getD ("global:" ++ d.name)
  [{ kind := "variables_set"
     id
     fields := [("VAR", .string d.name)]
     inputs := [{ name := "VALUE"
                  block := [{ kind := "variables_get"
                              id := id ++ ":value"
                              fields := [("VAR", .string d.name)] }] }] }]

namespace Workspace

variable {κ : Type}

def ofGraph (registry : Registry κ) (g : Graph) : Except EngineError (Workspace κ) := do
  if g.declarations.any (·.name.isEmpty) then throw (.malformed .unnamedVariable)
  let build := buildChain registry (variableNames g.declarations)
  let declared ← g.declarations.mapM fun d => build d.chain
  let chains ← g.blocks.mapM build
  return ⟨declared ++ chains⟩

def ofText (registry : Registry κ) (source : String) : Except EngineError (Workspace κ) :=
  match Graph.load source 0 with
  | .ok graph => ofGraph registry graph
  | .error e => .error (.malformed (.unloadable e))

variable [Behaviour κ]

/-! ### Running -/

/-- Runs all chains and gives the value of the last. An escape that no loop takes ends its own
chain only. -/
def evaluateFrom (limit : Nat) (last : Value) : List (List (Block κ)) → Run Value
  | [] => return last
  | chain :: rest => do
    let v ← evaluateChain limit chain
    let _ ← Traversal.takeEscape
    evaluateFrom limit v rest

def evaluate (limit : Nat) (w : Workspace κ) : Run Value := evaluateFrom limit .null w.chains

structure Execution where
  value : Value
  bindings : Entries Value

def run (limit : Nat) (w : Workspace κ) (globals : List (String × Value)) :
    Except Halt Execution :=
  match (w.evaluate limit).run.run (.ofBindings globals) with
  | (.ok value, c) => .ok ⟨value, c.root.bindings⟩
  | (.error halt, _) => .error halt

/-! ### Compiling -/

def compileChains : List (List (Block κ)) → Compilation (List Stmt)
  | [] => return []
  | chain :: rest => do
    let body ← compileChain chain
    let _ ← Traversal.takeEscape
    return body ++ (← compileChains rest)

def generate (w : Workspace κ) : Compilation Program := do
  let body ← compileChains w.chains
  return { declared := (← MonadState.get).root.bindings.names, body }

def compile (w : Workspace κ) : Except EngineError Program :=
  (w.generate.run.run {}).1

end Workspace
end Blockwork
