import Blockwork.Command.Output
import Blockwork.Target.Outline
import Blockwork.Target.Print
import Blockwork.Toml.Document
import Blockwork.Workspace

/-! The commands on one program: running it, compiling it and listing its blocks. -/

namespace Blockwork.Command

section Listing

variable {κ : Type}

mutual

def listBlock (depth : Nat) (label : String) : Block κ → List String
  | ⟨_, tag, id, _, values, statements, _, _⟩ =>
    (String.ofList (List.replicate (2 * depth) ' ') ++ label ++ tag ++
      (if id.isEmpty then "" else " (" ++ id ++ ")")) ::
    (listSockets (depth + 1) values ++ listSockets (depth + 1) statements)

def listChain (depth : Nat) (label : String) : List (Block κ) → List String
  | [] => []
  | b :: rest => listBlock depth label b ++ listChain depth "" rest

def listSockets (depth : Nat) : List (Socket κ) → List String
  | [] => []
  | ⟨name, chain⟩ :: rest => listChain depth (name ++ ": ") chain ++ listSockets depth rest

end
end Listing

variable {m : Type → Type} [Monad m] (disk : Disk m) (limit : Nat)

def loadText (path source : String) : Except Trouble (Workspace Kind) :=
  match Graph.load source 0 with
  | .error (.malformed cause _ span _) => .error (.unparsable path source cause.message span)
  | .error e => .error (.engine (.malformed (.unloadable e)))
  | .ok graph =>
    match Workspace.ofGraph (.standard id) graph with
    | .ok w => .ok w
    | .error e => .error (.engine e)

def load (path : String) : Work m (Workspace Kind) := do
  let source ← read disk path
  ExceptT.mk (pure (loadText path source))

def globalsOfText (path source : String) : Except Trouble (List (String × Value)) :=
  match Toml.read? source with
  | none => .error (.notToml path)
  | some table =>
    match Bindings.ofTable table with
    | .ok globals => .ok globals
    | .error e => .error (.global e)

def readGlobals : Option String → Work m (List (String × Value))
  | none => return []
  | some path => do
    let source ← read disk path
    ExceptT.mk (pure (globalsOfText path source))

def runProgram (file : String) (globals : Option String) (json : Bool) : Work m Output := do
  let globals ← readGlobals disk globals
  let w ← load disk file
  match w.run limit globals with
  | .error halt => throw (.halted halt)
  | .ok execution =>
    let bindings := execution.bindings
    return { stdout := if json then Bindings.json bindings ++ "\n" else Bindings.toml bindings }

def generateProgram (file : String) (tree : Bool) : Work m Output := do
  let w ← load disk file
  match w.compile with
  | .error e => throw (.engine e)
  | .ok program =>
    return { stdout := if tree then program.outline.render 0 ++ "\n" else program.print }

def checkProgram (file : String) (listBlocks : Bool) : Work m Output := do
  let w ← load disk file
  if listBlocks then return { stdout := Text.unlines (w.chains.flatMap (listChain 0 "")) }
  else
    return { stderr := "ok: " ++ file ++ " parsed successfully (" ++ Nat.repr w.chains.length ++
      " chains)\n" }

end Blockwork.Command
