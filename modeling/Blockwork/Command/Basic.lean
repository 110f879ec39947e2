/-! The commands of the program, and how they are written on a command line. -/

namespace Blockwork

inductive Command where
  | run (file : String) (globals : Option String) (json : Bool)
  | generate (file : String) (tree : Bool)
  | check (file : String) (listBlocks : Bool)
  | test (path : String) (categories : List String) (listCategories : Bool)

structure Invocation where
  command : Command
  colour : Bool

namespace Command

structure Switch where
  name : String
  letter : Option Char := none
  valued : Bool := false

inductive Item where
  | option (name value : String)
  | operand (text : String)

inductive Reading where
  | items (items : List Item)
  | needsValue (items : List Item) (name : String)
  | unknown

/-- A row of letters behind one dash. The letters of an option with a value end it. -/
def readLetters (switches : List Switch) : List Char → Reading
  | [] => .items []
  | c :: rest =>
    match switches.find? (·.letter = some c) with
    | none => .unknown
    | some s =>
      if s.valued then
        match rest with
        | [] => .needsValue [] s.name
        | '=' :: value => .items [.option s.name (String.ofList value)]
        | value => .items [.option s.name (String.ofList value)]
      else
        match readLetters switches rest with
        | .items items => .items (.option s.name "" :: items)
        | .needsValue items name => .needsValue (.option s.name "" :: items) name
        | .unknown => .unknown

def readName (switches : List Switch) (cs : List Char) : Reading :=
  let name := String.ofList (cs.takeWhile (· ≠ '='))
  match switches.find? (·.name = name), cs.dropWhile (· ≠ '=') with
  | some s, [] => if s.valued then .needsValue [] name else .items [.option name ""]
  | some s, _ :: value => if s.valued then .items [.option name (String.ofList value)] else .unknown
  | none, _ => .unknown

def isOption (arg : String) : Bool := arg.startsWith "-" && arg ≠ "-"

def readArgs? (switches : List Switch) : List String → Option (List Item)
  | [] => some []
  | "--" :: rest => some (rest.map .operand)
  | arg :: rest =>
    if isOption arg then
      let reading := match arg.toList with
        | '-' :: '-' :: name => readName switches name
        | _ :: letters => readLetters switches letters
        | [] => .unknown
      match reading, rest with
      | .items items, rest => (readArgs? switches rest).map (items ++ ·)
      | .needsValue items name, value :: rest =>
        if isOption value then none
        else (readArgs? switches rest).map (items ++ .option name value :: ·)
      | _, _ => none
    else (readArgs? switches rest).map (.operand arg :: ·)

def commonSwitches : List Switch := [⟨"no-color", none, false⟩, ⟨"verbose", some 'v', false⟩]

def switchesOf : String → Option (List Switch)
  | "run" => some [⟨"globals", some 'g', true⟩, ⟨"json", none, false⟩]
  | "generate" => some [⟨"tree", none, false⟩]
  | "check" => some [⟨"list-blocks", none, false⟩]
  | "test" => some [⟨"category", some 'c', true⟩, ⟨"list-categories", none, false⟩]
  | _ => none

def values (items : List Item) (name : String) : List String :=
  items.filterMap fun
    | .option other value => if other = name then some value else none
    | .operand _ => none

def isSet (items : List Item) (name : String) : Bool := !(values items name).isEmpty

def operands (items : List Item) : List String :=
  items.filterMap fun
    | .operand text => some text
    | .option _ _ => none

def repeatable : List String := ["verbose", "category"]

def isProper (switches : List Switch) (items : List Item) : Bool :=
  switches.all (fun s => repeatable.contains s.name || (values items s.name).length ≤ 1) &&
    !(operands items ++ values items "globals").contains ""

def build? (name : String) (items : List Item) : Option Command :=
  match name, operands items with
  | "run", [file] => some (.run file (values items "globals").head? (isSet items "json"))
  | "generate", [file] => some (.generate file (isSet items "tree"))
  | "check", [file] => some (.check file (isSet items "list-blocks"))
  | "test", [path] => some (.test path (values items "category") (isSet items "list-categories"))
  | _, _ => none

def ofArgs? (args : List String) : Option Invocation := do
  let front ← readArgs? commonSwitches (args.takeWhile isOption)
  match args.dropWhile isOption with
  | [] => none
  | name :: rest =>
    let switches := (← switchesOf name) ++ commonSwitches
    let items ← readArgs? switches rest
    if isProper commonSwitches front && (operands front).isEmpty && isProper switches items then
      return ⟨← build? name items, !isSet front "no-color" && !isSet items "no-color"⟩
    else none

end Command
end Blockwork
