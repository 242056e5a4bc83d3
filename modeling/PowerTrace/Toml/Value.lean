import PowerTrace.Toml.Number

/-!
# Values of a settings file

* `key?`: a name, or several joined by points;
* `value?`: a scalar, a list in brackets or a table in braces.

Lists and tables are nested less than 80 deep, and a name has less than 80 parts.  A table in braces
is complete: its names are given once, and a dotted name inside it only extends tables that dotted
names made.
-/

namespace PowerTrace.Toml

/-- How deep values nest, and how many parts a name has, at most; both stay below it. -/
def depthLimit : Nat := 80

/-- Items, at least one, with a separator between any two; `n` bounds how many may follow. -/
def separated {α : Type} (item : Rule α) (separator : Char) : (n : Nat) → Rule (List α)
  | 0, _ => none
  | n + 1, cs => do
    let (a, rest) ← item cs
    match rest with
    | c :: after =>
      if c = separator then
        let (as, rest) ← separated item separator n after
        some (a :: as, rest)
      else some ([a], rest)
    | [] => some ([a], [])

/-- One part of a name, with the blanks around it. -/
def keyPart? (cs : List Char) : Option (String × List Char) :=
  (simpleKey? (blank cs)).map fun (name, rest) => (name, blank rest)

/-- The parts of a name. -/
def key? (cs : List Char) : Option (List String × List Char) := do
  let (parts, rest) ← separated keyPart? '.' (cs.length + 1) cs
  if parts.length < depthLimit then some (parts, rest) else none

/-- A name and its value. -/
structure Binding where
  /-- The parts of the name. -/
  path : List String
  /-- The value. -/
  value : Document

instance : Inhabited Binding := ⟨⟨[], .null⟩⟩

/-- A name, an equals sign and a value. -/
def binding? (value : Rule Document) (cs : List Char) : Option (Binding × List Char) := do
  let (path, rest) ← key? cs
  let (v, rest) ← value (blank (← expect? '=' rest))
  some (⟨path, v⟩, blank rest)

/-- The items of a list, up to its closing bracket.  A separator may stand after the last one. -/
def listItems (value : Rule Document) : (n : Nat) → Rule (List Document)
  | 0, _ => none
  | n + 1, cs =>
    match gap cs with
    | ']' :: rest => some ([], rest)
    | cs => do
      let (v, rest) ← value cs
      match gap rest with
      | ',' :: rest =>
        let (vs, rest) ← listItems value n rest
        some (v :: vs, rest)
      | ']' :: rest => some ([v], rest)
      | _ => none

/-! ### Tables in braces -/

/-- What a name of a table in braces stands for. -/
inductive Inline where
  /-- A value that is complete. -/
  | value (d : Document)
  /-- A table that dotted names made and may extend. -/
  | dotted (entries : List (String × Inline))

instance : Inhabited Inline := ⟨.value .null⟩

mutual

/-- The document of an entry. -/
def Inline.document : Inline → Document
  | .value d => d
  | .dotted entries => .table (inlineFields entries)

/-- The fields of a table in braces. -/
def inlineFields : List (String × Inline) → List (String × Document)
  | [] => []
  | (name, i) :: rest => (name, i.document) :: inlineFields rest

end

/-- Change, or add, the entry with a given name. -/
def alterEntry {α : Type} (name : String) (f : Option α → Option α) :
    List (String × α) → Option (List (String × α))
  | [] => (f none).map fun a => [(name, a)]
  | (n, a) :: rest =>
    if n = name then (f (some a)).map fun a => (n, a) :: rest
    else (alterEntry name f rest).map ((n, a) :: ·)

/-- Add a value under a name to the entries of a table in braces, unless the name is taken. -/
def addInline (value : Document) : (path : List String) → List (String × Inline) →
    Option (List (String × Inline))
  | [], _ => none
  | [name], entries =>
    alterEntry name (fun | none => some (.value value) | some _ => none) entries
  | name :: next :: path, entries =>
    alterEntry name (fun
      | none => (addInline value (next :: path) []).map .dotted
      | some (.dotted inner) => (addInline value (next :: path) inner).map .dotted
      | some (.value _) => none) entries

/-- The table with the given bindings. -/
def inlineTable (bindings : List Binding) : Option Document := do
  let entries ← bindings.foldlM (fun entries b => addInline b.value b.path entries) []
  some (.table (inlineFields entries))

/-- The bindings of a table, up to its closing brace. -/
def tableBindings (value : Rule Document) (cs : List Char) : Option (List Binding × List Char) :=
  match expect? '\x7d' (blank cs) with
  | some rest => some ([], rest)
  | none => do
    let (bindings, rest) ← separated (binding? value) ',' (cs.length + 1) cs
    some (bindings, ← expect? '\x7d' (blank rest))

/-! ### Values -/

/-- A truth value. -/
def truth? (cs : List Char) : Option (Document × List Char) :=
  match Text.after? "true".toList cs, Text.after? "false".toList cs with
  | some rest, _ => some (.bool true, rest)
  | none, some rest => some (.bool false, rest)
  | none, none => none

/-- A value other than a list or a table. -/
def scalar (cs : List Char) : Option (Document × List Char) :=
  match cs with
  | c :: _ =>
    if c = '"' || c = '\'' then (text? cs).map fun (s, rest) => (.text (String.ofList s), rest)
    else (truth? cs).or ((dateTime? cs).or (number? cs))
  | [] => none

/-- A value in which lists and tables nest at most `depth` deep. -/
def value? : (depth : Nat) → Rule Document
  | 0, cs => scalar cs
  | depth + 1, cs =>
    match cs with
    | '[' :: rest =>
      (listItems (value? depth) (rest.length + 1) rest).map fun (vs, rest) => (.list vs, rest)
    | '\x7b' :: rest => do
      let (bindings, rest) ← tableBindings (value? depth) rest
      some (← inlineTable bindings, rest)
    | _ => scalar cs

end PowerTrace.Toml
