import Blockwork.Proofs.Target.Pieces

/-! The grammar of written expressions as a reader of tokens. The looser forms come first:
assignments, conditionals, rows of operators from the loosest to the tightest, powers, prefix
operators, calls and members of a receiver, atoms. -/

namespace Blockwork.Target

/-- An expression as it is read: a number has digits for a value, a variable its written name. -/
inductive Tree where
  | null
  | boolean (b : Bool)
  | numeral (digits : String)
  | text (content : String)
  | list (items : List Tree)
  | name (written : String)
  | assign (written : String) (value : Tree)
  | unary (op : UnaryOp) (operand : Tree)
  | binary (op : BinaryOp) (left right : Tree)
  | conditional (condition thenTree elseTree : Tree)
  | call (function : String) (args : List Tree)
  | method (receiver : Tree) (name : String) (args : List Tree)
  | member (object : Tree) (property : String)

abbrev Reader (α : Type) := List Token → Option (α × List Token)

structure Readers where
  phrase : Nat → Reader Tree
  more : Nat → Tree → Reader Tree
  items : Reader (List Tree)

def constants : List (String × Tree) := [
  ("null", .null), ("true", .boolean true), ("false", .boolean false), ("NaN", .numeral "NaN"),
  ("Infinity", .numeral "Infinity")]

def prefix? : List Token → Option (UnaryOp × List Token)
  | .sign "-" :: rest => some (.negate, rest)
  | .sign "!" :: rest => some (.not, rest)
  | .word "typeof" :: rest => some (.typeOf, rest)
  | _ => none

def BinaryOp.all : List BinaryOp := [
  .add, .subtract, .multiply, .divide, .modulo, .power, .equal, .notEqual, .less, .lessOrEqual,
  .greater, .greaterOrEqual, .and, .or, .coalesce]

def BinaryOp.ofSymbol? (s : String) : Option BinaryOp := BinaryOp.all.find? (·.symbol = s)

def takeNames : List Token → List String × List Token
  | .sign "." :: .word name :: rest => (name :: (takeNames rest).1, (takeNames rest).2)
  | ts => ([], ts)

def closed {α : Type} (mark : String) (read : Reader α) : Reader α := fun ts =>
  match read ts with
  | some (a, t :: rest) => if t = .sign mark then some (a, rest) else none
  | _ => none

namespace Readers

variable (r : Readers)

def args (mark : String) : Reader (List Tree) := fun ts =>
  match ts with
  | [] => none
  | t :: rest => if t = .sign mark then some ([], rest) else closed mark r.items (t :: rest)

def call (head : String) : Reader Tree := fun ts =>
  match takeNames ts with
  | (names, .sign "(" :: rest) =>
    (r.args ")" rest).map fun (args, rest) => (.call (head ++ dotted names) args, rest)
  | _ => none

def word (w : String) : Reader Tree := fun ts =>
  if w ∈ helpers then r.call w ts
  else match constants.lookup w with
    | some t => some (t, ts)
    | none => if w ∈ reserved then none else some (.name w, ts)

def atom : Reader Tree
  | .word w :: rest => r.word w rest
  | .numeral digits :: rest => some (.numeral digits, rest)
  | .text content :: rest => some (.text content, rest)
  | .sign "(" :: rest => closed ")" (r.phrase assignStrength) rest
  | .sign "[" :: rest => (r.args "]" rest).map fun (items, rest) => (.list items, rest)
  | _ => none

def unary (op : UnaryOp) : Reader Tree := fun ts =>
  (r.phrase unaryStrength ts).map fun (operand, rest) => (.unary op operand, rest)

/-- No bare prefix operator stands to the left of a power, nor is there one in a receiver. -/
def phraseFrom (least : Nat) : Reader Tree := fun ts =>
  if atomStrength ≤ least then r.atom ts
  else match if least = 9 ∨ least = unaryStrength then prefix? ts else none with
    | some (op, rest) => r.unary op rest
    | none => do
      let (left, rest) ← r.phrase (least + 1) ts
      r.more least left rest

def select (receiver : Tree) : Reader Tree
  | .word name :: .sign "(" :: rest => do
    let (args, rest) ← r.args ")" rest
    r.more postfixStrength (.method receiver name args) rest
  | .word name :: rest => r.more postfixStrength (.member receiver name) rest
  | _ => none

def choose (condition : Tree) : Reader Tree := fun ts => do
  let (thenTree, rest) ← closed ":" (r.phrase assignStrength) ts
  let (elseTree, rest) ← r.phrase assignStrength rest
  return (.conditional condition thenTree elseTree, rest)

def assign : Tree → Reader Tree
  | .name written => fun ts =>
    (r.phrase assignStrength ts).map fun (value, rest) => (.assign written value, rest)
  | _ => fun _ => none

/-- Powers group to the right, all other operators to the left. -/
def operate (op : BinaryOp) (left : Tree) : Reader Tree := fun ts => do
  let (right, rest) ← r.phrase (if op = .power then op.strength else op.strength + 1) ts
  r.more op.strength (.binary op left right) rest

def moreFrom (k : Nat) (left : Tree) : Reader Tree
  | .sign s :: rest =>
    if s = "." ∧ k = postfixStrength then r.select left rest
    else if s = "?" ∧ k = conditionalStrength then r.choose left rest
    else if s = "=" ∧ k = assignStrength then r.assign left rest
    else match BinaryOp.ofSymbol? s with
      | some op => if op.strength = k then r.operate op left rest else some (left, .sign s :: rest)
      | none => some (left, .sign s :: rest)
  | ts => some (left, ts)

def itemsFrom : Reader (List Tree) := fun ts => do
  let (item, rest) ← r.phrase assignStrength ts
  match rest with
  | .sign "," :: rest => (r.items rest).map fun (items, rest) => (item :: items, rest)
  | rest => some ([item], rest)

def next : Readers := ⟨r.phraseFrom, r.moreFrom, r.itemsFrom⟩

end Readers

def readers : Nat → Readers
  | 0 => ⟨fun _ _ => none, fun _ _ _ => none, fun _ => none⟩
  | n + 1 => (readers n).next

/-- The phrase that the tokens begin with. Each token takes the reading a few levels down. -/
def readPhrase : Reader Tree := fun ts => (readers (16 * ts.length + 16)).phrase assignStrength ts

end Blockwork.Target
