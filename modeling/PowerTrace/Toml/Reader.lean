import PowerTrace.Toml.Value

/-!
# Reading a settings file

A file is a list of *statements*: table headers, headers of tables in a list, and bindings, which
belong to the table whose header stands last before them.

* `statements?`: the statements of a text;
* `document?`: the document that they make.

A table is *implied* while it is only the way to another one, *dotted* if names with points made it,
and *defined* once it has a header.  Only an implied table may still get a header, and only a dotted
one may be extended by names with points.
-/

namespace PowerTrace.Toml

/-! ### Statements -/

/-- One line of a file that says something. -/
inductive Statement where
  /-- The header of a table. -/
  | header (path : List String)
  /-- The header of one more table of a list. -/
  | itemHeader (path : List String)
  /-- A name and its value. -/
  | binding (b : Binding)

/-- A header without its first bracket. -/
def header? (cs : List Char) : Option (Statement × List Char) :=
  match cs with
  | '[' :: rest => do
    let (path, rest) ← key? rest
    some (.itemHeader path, ← expect? ']' (← expect? ']' rest))
  | _ => do
    let (path, rest) ← key? cs
    some (.header path, ← expect? ']' rest)

/-- A header or a binding. -/
def statement? (cs : List Char) : Option (Statement × List Char) :=
  match cs with
  | '[' :: rest => header? rest
  | _ => (binding? (value? (depthLimit - 1)) cs).map fun (b, rest) => (.binding b, rest)

/-- The statements of the lines of a text; `n` bounds the number of lines. -/
def statementsFrom : (n : Nat) → List Char → Option (List Statement)
  | 0, _ => none
  | n + 1, cs =>
    match blank cs with
    | [] => some []
    | cs =>
      match lineEnd? cs with
      | some rest => statementsFrom n rest
      | none => do
        let (s, rest) ← statement? cs
        let more ← statementsFrom n (← lineEnd? rest)
        some (s :: more)

/-- The mark that may stand in front of a text. -/
def byteOrderMark : Char := '\ufeff'

/-- The statements of a text. -/
def statements? (cs : List Char) : Option (List Statement) :=
  let cs := if cs.head? = some byteOrderMark then cs.tail else cs
  statementsFrom (cs.length + 1) cs

/-! ### The document of a list of statements -/

/-- How a table came about. -/
inductive TableState where
  /-- On the way to another table. -/
  | implied
  /-- By names with points. -/
  | dotted
  /-- By a header. -/
  | defined
  deriving DecidableEq

/-- What a name stands for while a file is read. -/
inductive Node where
  /-- A value that is complete. -/
  | value (d : Document)
  /-- A table. -/
  | table (state : TableState) (entries : List (String × Node))
  /-- The tables of a list, the last one first. -/
  | tables (latest : List (String × Node)) (earlier : List (List (String × Node)))

instance : Inhabited Node := ⟨.value .null⟩

mutual

/-- The document of a node. -/
def Node.document : Node → Document
  | .value d => d
  | .table _ entries => .table (nodeFields entries)
  | .tables latest earlier => .list (.table (nodeFields latest) :: nodeTables earlier).reverse

/-- The fields of a table. -/
def nodeFields : List (String × Node) → List (String × Document)
  | [] => []
  | (name, node) :: rest => (name, node.document) :: nodeFields rest

/-- The tables of a list. -/
def nodeTables : List (List (String × Node)) → List Document
  | [] => []
  | entries :: rest => .table (nodeFields entries) :: nodeTables rest

end

/-- The entries of a table. -/
abbrev Entries := List (String × Node)

/-- Change the entries of the table that a header path leads to, in a list of tables of the last
one; a table that is not there is implied. -/
def withTable (f : Entries → Option Entries) : (path : List String) → Entries → Option Entries
  | [], entries => f entries
  | name :: path, entries =>
    alterEntry name (fun
      | none => (withTable f path []).map (.table .implied)
      | some (.table state inner) => (withTable f path inner).map (.table state)
      | some (.tables latest earlier) =>
        (withTable f path latest).map fun latest => .tables latest earlier
      | some (.value _) => none) entries

/-- Define the table with a given name, unless it is defined already. -/
def defineTable (name : String) (entries : Entries) : Option Entries :=
  alterEntry name (fun
    | none => some (.table .defined [])
    | some (.table .implied inner) => some (.table .defined inner)
    | some _ => none) entries

/-- Add a table to the list with a given name. -/
def addTable (name : String) (entries : Entries) : Option Entries :=
  alterEntry name (fun
    | none => some (.tables [] [])
    | some (.tables latest earlier) => some (.tables [] (latest :: earlier))
    | some _ => none) entries

/-- Add a value under a name to the entries of a table, unless the name is taken.  A name with
points may pass implied tables and lists of tables, but the table it adds to must be dotted. -/
def addValue (value : Document) : (path : List String) → Entries → Option Entries
  | [], _ => none
  | [name], entries =>
    alterEntry name (fun | none => some (.value value) | some _ => none) entries
  | name :: next :: path, entries =>
    alterEntry name (fun
      | none => (addValue value (next :: path) []).map (.table .dotted)
      | some (.table .dotted inner) => (addValue value (next :: path) inner).map (.table .dotted)
      | some (.table .implied inner) =>
        if path.isEmpty then none
        else (addValue value (next :: path) inner).map (.table .implied)
      | some (.tables latest earlier) =>
        if path.isEmpty then none
        else (addValue value (next :: path) latest).map fun latest => .tables latest earlier
      | some _ => none) entries

/-- A document under way: its entries, and the header that stands last. -/
structure Draft where
  /-- The entries so far. -/
  entries : Entries
  /-- The path of the table that bindings belong to. -/
  current : List String

/-- The path to a table without its last part, and that part. -/
def splitPath (path : List String) : Option (List String × String) :=
  path.getLast?.map fun name => (path.dropLast, name)

/-- Go on with a statement. -/
def Draft.add (d : Draft) : Statement → Option Draft
  | .header path => do
    let (way, name) ← splitPath path
    some ⟨← withTable (defineTable name) way d.entries, path⟩
  | .itemHeader path => do
    let (way, name) ← splitPath path
    some ⟨← withTable (addTable name) way d.entries, path⟩
  | .binding b => do
    some ⟨← withTable (addValue b.value b.path) d.current d.entries, d.current⟩

/-- The document that a text holds, if it is well formed. -/
def document? (cs : List Char) : Option Document := do
  let draft ← (← statements? cs).foldlM Draft.add ⟨[], []⟩
  some (.table (nodeFields draft.entries))

/-- The dialect of settings files: a list may hold more items than a record has fields, and an empty
list or table says nothing. -/
def dialect : Dialect where
  sparesItems := true
  isUnit
    | .list items => items.isEmpty
    | .table fields => fields.isEmpty
    | _ => false

end PowerTrace.Toml
