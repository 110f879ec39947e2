import Blockwork.Json.Node

/-! Readers of a tree: any value, a text, or nothing but well-formedness. Each stops at its first
fault in the order of the text. -/

namespace Blockwork.Json

def Node.mismatch (expected : String) : Node → Fault
  | .scalar _ _ (.error f) => f
  | .scalar _ stop (.ok value) =>
    let found := match value with
      | .null => .null
      | .bool b => .bool b
      | .int n => .int n
      | .float x => .float x
      | .string s => .string s
      | .array _ => .sequence
      | .object _ => .map
    ⟨.mismatch found expected, stop⟩
  | .array start _ _ => ⟨.mismatch .sequence expected, start⟩
  | .object start _ _ => ⟨.mismatch .map expected, start⟩
  | .broken _ read _ => read

def Node.start : Node → Nat
  | .scalar start _ _ | .array start _ _ | .object start _ _ | .broken start _ _ => start

def Node.readText : Node → Except Fault String
  | .scalar _ _ (.ok (.string s)) => .ok s
  | node => .error (node.mismatch "a string")

def Node.readText? : Node → Except Fault (Option String)
  | .scalar _ _ (.ok .null) => .ok none
  | node => some <$> node.readText

def succeedUnless : Option Fault → Except Fault Unit
  | some f => .error f
  | none => .ok ()

mutual

def Node.read : Node → Except Fault Json
  | .scalar _ _ value => value
  | .array _ items ending => do
    let items ← readItems items
    succeedUnless ending.listFault?
    return .array items
  | .object _ members ending => do
    let members ← readMembers [] members
    succeedUnless ending.objectFault?
    return .object members
  | .broken _ read _ => .error read

def readItems : List Node → Except Fault (List Json)
  | [] => .ok []
  | node :: rest => do
    let item ← node.read
    return item :: (← readItems rest)

def readMembers (done : Entries Json) : List Member → Except Fault (Entries Json)
  | [] => .ok done
  | ⟨key, _, node⟩ :: rest => do
    let name ← key
    let value ← node.read
    readMembers (done.put name value) rest

end

def Node.readMap : Node → Except Fault (Entries Json)
  | .object _ members ending => do
    let members ← readMembers [] members
    succeedUnless ending.objectFault?
    return members
  | node => .error (node.mismatch "a map")

mutual

def Node.skip : Node → Except Fault Unit
  | .scalar .. => .ok ()
  | .array _ items ending => do
    skipItems items
    succeedUnless ending.skippedListFault?
  | .object _ members ending => do
    skipMembers members
    succeedUnless ending.skippedObjectFault?
  | .broken _ _ skipped => .error skipped

def skipItems : List Node → Except Fault Unit
  | [] => .ok ()
  | node :: rest => do
    node.skip
    skipItems rest

def skipMembers : List Member → Except Fault Unit
  | [] => .ok ()
  | ⟨_, _, node⟩ :: rest => do
    node.skip
    skipMembers rest

end

end Blockwork.Json
