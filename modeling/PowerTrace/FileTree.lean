import PowerTrace.Error
import PowerTrace.Text.Lines

/-!
# File trees

The files that a computation can see, as a value: a file is its bytes, a directory its named
entries.  A path is text with `/` between its steps; a path that begins with `/` starts at an entry
of that name.

* `FileTree.locate`: the place that a path means, or why it means none;
* `FileTree.read`, `readText`, `list`: look at what is there;
* `FileTree.write`, `makeDirs`: the tree with a file or a directory more.
-/

namespace PowerTrace

/-- A file or a directory. -/
inductive FileTree where
  /-- A file with these bytes. -/
  | file (bytes : ByteArray)
  /-- A directory with these entries. -/
  | dir (entries : List (String × FileTree))

instance : Inhabited FileTree := ⟨.dir []⟩

namespace FileTree

/-- The entry with a given name. -/
def entry? (name : String) : FileTree → Option FileTree
  | file _ => none
  | dir entries => entries.lookup name

/-- What is at a place. -/
def node? (t : FileTree) : (place : List String) → Option FileTree
  | [] => some t
  | name :: rest => (t.entry? name).bind (node? · rest)

/-- Put something under a name, in the place of what was there. -/
def setEntry (name : String) (new : FileTree) : List (String × FileTree) → List (String × FileTree)
  | [] => [(name, new)]
  | (n, t) :: rest => if n = name then (name, new) :: rest else (n, t) :: setEntry name new rest

/-- Put something at a place; what is missing on the way becomes a directory. -/
def put (t : FileTree) (place : List String) (new : FileTree) : FileTree :=
  match place with
  | [] => new
  | name :: rest =>
    let entries := match t with
      | file _ => []
      | dir entries => entries
    dir (setEntry name (((entries.lookup name).getD (dir [])).put rest new) entries)

/-- The steps of a path. -/
def steps (path : String) : List String :=
  match (path.toList.splitOn '/').map String.ofList with
  | "" :: _ :: rest => "/" :: rest
  | parts => parts

/-- The place that a step leads to.  An empty step and `.` stay, and `..` goes back. -/
def next (here : List String) (name : String) : List String :=
  if name = "" || name = "." then here
  else if name = ".." then here.dropLast
  else here ++ [name]

/-- Go from a place along some steps.  Each must start at a directory; the last may end nowhere. -/
def walk (t : FileTree) : (here steps : List String) → Except IoError (List String)
  | here, [] => .ok here
  | here, name :: rest =>
    match t.node? here with
    | none => .error .notFound
    | some (file _) => .error .notDirectory
    | some (dir _) => walk t (next here name) rest

/-- The places that some steps lead through from a place, both ends included. -/
def visited : (here steps : List String) → List (List String)
  | here, [] => [here]
  | here, name :: rest => here :: visited (next here name) rest

/-- The place that a path means, whether or not something is there. -/
def locate (t : FileTree) (path : String) : Except IoError (List String) :=
  if path.isEmpty then .error .notFound else t.walk [] (steps path)

/-- What a path leads to. -/
def find (t : FileTree) (path : String) : Except IoError FileTree := do
  match t.node? (← t.locate path) with
  | some node => .ok node
  | none => .error .notFound

/-- Whether a path leads to anything. -/
def contains (t : FileTree) (path : String) : Bool := (t.find path).toBool

/-- The bytes of a file. -/
def read (t : FileTree) (path : String) : Except IoError ByteArray := do
  match ← t.find path with
  | file bytes => .ok bytes
  | dir _ => .error .isDirectory

/-- The text of a file. -/
def readText (t : FileTree) (path : String) : Except IoError String := do
  match String.fromUTF8? (← t.read path) with
  | some s => .ok s
  | none => .error .invalidText

/-- The names in a directory. -/
def list (t : FileTree) (path : String) : Except IoError (List String) := do
  match ← t.find path with
  | file _ => .error .notDirectory
  | dir entries => .ok (entries.map (·.1))

/-- The tree with a file written.  Its directory must be there. -/
def write (t : FileTree) (path : String) (bytes : ByteArray) : Except IoError FileTree := do
  let place ← t.locate path
  match t.node? place with
  | some (dir _) => .error .isDirectory
  | _ => .ok (t.put place (file bytes))

/-- The tree with a directory made, and all directories on the way to it. -/
def makeDirs (t : FileTree) (path : String) : Except IoError FileTree :=
  (visited [] (steps path)).foldlM (fun t place =>
    match t.node? place with
    | some (dir _) => .ok t
    | some (file _) => .error .notDirectory
    | none => .ok (t.put place (dir []))) t

/-- The tree with a directory at a place, if there is none. -/
def ensureDir (t : FileTree) (place : List String) : FileTree :=
  match t.node? place with
  | some (dir _) => t
  | _ => t.put place (dir [])

/-- The tree with a file at a path, and all directories on the way to it. -/
def withFile (t : FileTree) (path : String) (bytes : ByteArray) : FileTree :=
  let places := visited [] (steps path)
  (places.dropLast.foldl ensureDir t).put (places.getLastD []) (file bytes)

/-- The tree with a directory at a path, and all directories on the way to it. -/
def withDir (t : FileTree) (path : String) : FileTree :=
  (visited [] (steps path)).foldl ensureDir t

end FileTree

end PowerTrace
