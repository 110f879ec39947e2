/-! A folder tree as a list of files, written paths in it, and the ways in which a path can fail to
lead to a text. -/

namespace Blockwork

inductive FileError where
  | absent
  | folder
  | underFile
  | notText
  | other (reason : String)
deriving Repr, DecidableEq

def FileError.text : FileError → String
  | .absent => "No such file or directory (os error 2)"
  | .folder => "Is a directory (os error 21)"
  | .underFile => "Not a directory (os error 20)"
  | .notText => "stream did not contain valid UTF-8"
  | .other reason => reason

abbrev Path := List String

namespace Path

/-- The order of paths by their first different names; a folder comes before what lies below. -/
def precedes : Path → Path → Bool
  | [], _ => true
  | _ :: _, [] => false
  | a :: as, b :: bs => a < b || (a = b && precedes as bs)

/-! ### Written paths -/

def join (folder name : String) : String :=
  if name.startsWith "/" || folder.isEmpty then name
  else if folder.endsWith "/" then folder ++ name
  else folder ++ "/" ++ name

def below (folder : String) : Path → String
  | [] => folder
  | name :: names => join folder ("/".intercalate (name :: names))

def fileName (path : String) : String := (path.splitOn "/").getLastD ""

/-- The folder of a file, without empty names and single dots at its end. -/
def folder (path : String) : String :=
  match (path.splitOn "/").dropLast with
  | [] => ""
  | first :: rest =>
    let kept := (rest.reverse.dropWhile fun name => name = "" || name = ".").reverse
    if kept.isEmpty && first.isEmpty then "/" else "/".intercalate (first :: kept)

end Path

/-- The files below one folder with their contents. A folder is there if a file lies below it. -/
structure Files where
  entries : List (Path × ByteArray)

namespace Files

inductive Kind where
  | file (content : ByteArray)
  | folder

def kind? (files : Files) (path : Path) : Option Kind :=
  match files.entries.lookup path with
  | some content => some (.file content)
  | none =>
    if path.isEmpty || files.entries.any fun e => path.isPrefixOf e.1 then some .folder else none

def walk (files : Files) (reached : Path) : List String → Except FileError Path
  | [] => .ok reached
  | name :: rest =>
    match files.kind? reached with
    | none => .error .absent
    | some (.file _) => .error .underFile
    | some .folder =>
      if name = "" || name = "." then walk files reached rest
      else if name = ".." then
        if reached.isEmpty then .error .absent else walk files reached.dropLast rest
      else walk files (reached ++ [name]) rest

def find (files : Files) (path : String) : Except FileError (Path × Kind) := do
  if path.isEmpty || path.startsWith "/" then .error .absent
  else
    let reached ← files.walk [] (path.splitOn "/")
    match files.kind? reached with
    | some kind => .ok (reached, kind)
    | none => .error .absent

def readText (files : Files) (path : String) : Except FileError String := do
  match ← files.find path with
  | (_, .folder) => .error .folder
  | (_, .file content) =>
    match String.fromUTF8? content with
    | some text => .ok text
    | none => .error .notText

def isFile (files : Files) (path : String) : Bool :=
  match files.find path with
  | .ok (_, .file _) => true
  | _ => false

def isFolder (files : Files) (path : Path) : Bool :=
  match files.kind? path with
  | some .folder => true
  | _ => false

def list (files : Files) (path : String) : List (String × Bool) :=
  match files.find path with
  | .ok (reached, .folder) =>
    let names := files.entries.filterMap fun e =>
      if reached.isPrefixOf e.1 then e.1[reached.length]? else none
    names.eraseDups.map fun name => (name, files.isFolder (reached ++ [name]))
  | _ => []

end Files

structure Disk (m : Type → Type) where
  isFile : String → m Bool
  readText : String → m (Except FileError String)
  /-- The names in a folder, in any order, each with whether it is that of a folder. What cannot be
  listed has no names in it. -/
  list : String → m (List (String × Bool))

def Files.disk (files : Files) : Disk Id where
  isFile := files.isFile
  readText := files.readText
  list := files.list

/-- The files in and below the pending folders, all by the names on the way from the root. The folders
that turn up wait in front of the others; no more than `limit` folders are listed. -/
def Disk.filesBelow {m : Type → Type} [Monad m] (disk : Disk m) (root : String) :
    Nat → List Path → m (List Path)
  | 0, _ | _ + 1, [] => return []
  | limit + 1, folder :: pending => do
    let (folders, files) := (← disk.list (Path.below root folder)).partition Prod.snd
    let inner := folders.reverse.map fun e => folder ++ [e.1]
    return files.map (fun e => folder ++ [e.1]) ++ (← disk.filesBelow root limit (inner ++ pending))

end Blockwork
