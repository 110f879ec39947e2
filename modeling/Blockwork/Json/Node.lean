import Blockwork.Json.Token

/-! The tree of a JSON text that may break off. Objects and arrays keep how they end; a broken
spot is a leaf. So a reader that knows which values it wants meets the faults in the order of the
text, and a fault behind the place where it stops does not matter to it. -/

namespace Blockwork.Json

inductive Ending where
  | closed (stop : Nat)
  | cut (stop : Nat)
  | cutAfterComma (stop : Nat)
  | commaBeforeClose (start : Nat)
  | noComma (start : Nat)
  | noKey (start : Nat)
  | unread

mutual

inductive Node where
  | scalar (start stop : Nat) (value : Except Fault Json)
  | array (start : Nat) (items : List Node) (ending : Ending)
  | object (start : Nat) (members : List Member) (ending : Ending)
  | broken (start : Nat) (read skipped : Fault)

structure Member where
  key : Except Fault String
  /-- The bytes read when the member is refused for its key: up to the mark behind the key, with
  that mark if it closes the object. -/
  refused : Nat
  value : Node

end

namespace Ending

def listFault? : Ending → Option Fault
  | .closed _ | .unread | .noKey _ => none
  | .cut stop => some ⟨.endInList, stop⟩
  | .cutAfterComma stop => some ⟨.endInValue, stop⟩
  | .commaBeforeClose start => some ⟨.trailingComma, start + 1⟩
  | .noComma start => some ⟨.noListEnd, start + 1⟩

def skippedListFault? : Ending → Option Fault
  | .commaBeforeClose start => some ⟨.noValue, start + 1⟩
  | ending => ending.listFault?

def fullListFault? : Ending → Option Fault
  | .cutAfterComma stop => some ⟨.trailingCharacters, stop⟩
  | .noComma start => some ⟨.trailingCharacters, start + 1⟩
  | ending => ending.listFault?

def objectFault? : Ending → Option Fault
  | .closed _ | .unread => none
  | .cut stop => some ⟨.endInObject, stop⟩
  | .cutAfterComma stop => some ⟨.endInValue, stop⟩
  | .commaBeforeClose start => some ⟨.trailingComma, start + 1⟩
  | .noComma start => some ⟨.noObjectEnd, start + 1⟩
  | .noKey start => some ⟨.keyNotString, start + 1⟩

def skippedObjectFault? : Ending → Option Fault
  | .cutAfterComma stop => some ⟨.endInObject, stop⟩
  | .commaBeforeClose start => some ⟨.keyNotString, start + 1⟩
  | ending => ending.objectFault?

def stop : Ending → Nat
  | .closed stop => stop
  | _ => 0

end Ending

/-- An array or object whose end is still to come; the latest part comes first. -/
inductive Frame where
  | array (start : Nat) (items : List Node)
  | object (start : Nat) (members : List Member)
  | member (start : Nat) (members : List Member) (key : Except Fault String) (refused : Nat)

namespace Frame

def close (ending : Ending) : Frame → Node
  | .array start items => .array start items.reverse ending
  | .object start members | .member start members _ _ => .object start members.reverse ending

def push (node : Node) : Frame → Frame
  | .array start items => .array start (node :: items)
  | .object start members => .object start members
  | .member start members key refused => .object start (⟨key, refused, node⟩ :: members)

end Frame

def Node.unwind (node : Node) (stack : List Frame) : Node :=
  stack.foldl (fun node frame => (frame.push node).close .unread) node

inductive Want where
  | value
  | firstItem
  | item
  | firstKey
  | key
  | colon (key : Except Fault String)
  | separator

structure Document where
  root : Node
  trailing : Option Fault

namespace Document

def broken (stack : List Frame) (start : Nat) (read skipped : Fault) : Document :=
  ⟨(Node.broken start read skipped).unwind stack, none⟩

def breakOff (stack : List Frame) (ending : Ending) : Document :=
  match stack with
  | [] => ⟨.broken 0 ⟨.noValue, 0⟩ ⟨.noValue, 0⟩, none⟩
  | frame :: rest => ⟨(frame.close ending).unwind rest, none⟩

def atEnd (length : Nat) (stack : List Frame) : Want → Document
  | .value => broken stack length ⟨.endInValue, length⟩ ⟨.endInValue, length⟩
  | .firstItem | .firstKey | .separator => breakOff stack (.cut length)
  | .item | .key => breakOff stack (.cutAfterComma length)
  | .colon key =>
    match stack with
    | .object start members :: rest =>
      broken (.member start members key length :: rest) length
        ⟨.endInObject, length⟩ ⟨.endInObject, length⟩
    | _ => breakOff stack (.cut length)

inductive Step where
  | next (want : Want) (stack : List Frame)
  | complete (root : Node)
  | halt (document : Document)

def Step.ofNode (node : Node) : List Frame → Step
  | [] => .complete node
  | frame :: outer => .next .separator (frame.push node :: outer)

def Step.close (stop : Nat) : List Frame → Step
  | [] => .halt (breakOff [] .unread)
  | frame :: outer => .ofNode (frame.close (.closed stop)) outer

def Step.value (stack : List Frame) : Token → Step
  | ⟨start, _, .openArray⟩ => .next .firstItem (.array start [] :: stack)
  | ⟨start, _, .openObject⟩ => .next .firstKey (.object start [] :: stack)
  | ⟨start, stop, .scalar value⟩ => .ofNode (.scalar start stop value) stack
  | ⟨start, stop, .string content⟩ => .ofNode (.scalar start stop (content.map .string)) stack
  | ⟨start, _, .broken _ read skipped⟩ => .halt (broken stack start read skipped)
  | ⟨start, _, _⟩ => .halt (broken stack start ⟨.noValue, start + 1⟩ ⟨.noValue, start + 1⟩)

def Step.key (stack : List Frame) : Token → Step
  | ⟨_, _, .string content⟩ => .next (.colon content) stack
  | ⟨start, _, .broken true read skipped⟩ =>
    match stack with
    | .object first members :: outer =>
      .halt (broken (.member first members (.error read) start :: outer) start read skipped)
    | _ => .halt (breakOff stack (.noKey start))
  | ⟨start, _, _⟩ => .halt (breakOff stack (.noKey start))

def Step.colon (key : Except Fault String) (stack : List Frame) (t : Token) : Step :=
  match stack with
  | .object first members :: outer =>
    let fault : Fault := ⟨.noColon, t.start + 1⟩
    match t.lexeme with
    | .colon => .next .value (.member first members key t.start :: outer)
    | .closeObject =>
      .halt (broken (.member first members key t.stop :: outer) t.start fault fault)
    | _ => .halt (broken (.member first members key t.start :: outer) t.start fault fault)
  | _ => .halt (breakOff stack .unread)

def Step.separator (stack : List Frame) (t : Token) : Step :=
  match stack, t.lexeme with
  | .array .. :: _, .comma => .next .item stack
  | .array .. :: _, .closeArray => .close t.stop stack
  | .object .. :: _, .comma => .next .key stack
  | .object .. :: _, .closeObject => .close t.stop stack
  | _, _ => .halt (breakOff stack (.noComma t.start))

def Step.of (want : Want) (stack : List Frame) (t : Token) : Step :=
  match want, t.lexeme with
  | .firstItem, .closeArray | .firstKey, .closeObject => .close t.stop stack
  | .item, .closeArray | .key, .closeObject => .halt (breakOff stack (.commaBeforeClose t.start))
  | .value, _ | .firstItem, _ | .item, _ => .value stack t
  | .firstKey, _ | .key, _ => .key stack t
  | .colon key, _ => .colon key stack t
  | .separator, _ => .separator stack t

def ofTokens (length : Nat) (want : Want) (stack : List Frame) : List Token → Document
  | [] => atEnd length stack want
  | t :: rest =>
    match Step.of want stack t with
    | .next want stack => ofTokens length want stack rest
    | .complete root => ⟨root, rest.head?.map fun t => ⟨.trailingCharacters, t.start + 1⟩⟩
    | .halt document => document

def ofText (text : String) : Document :=
  ofTokens text.utf8ByteSize .value [] (lex 0 text.toList)

end Document
end Blockwork.Json
