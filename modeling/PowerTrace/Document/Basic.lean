/-!
# Documents

A document is a value as data formats have them: a scalar, a list, or a table of named values in
the order they were given.  What a document should hold is read by small rules, each of which
refuses any other kind of value.

* `Document.record?`: the fields of a record, which is a table or the list of its fields in order;
* `Document.variant?`: one of several names;
* `Document.word?` and its like: a scalar of a given kind.
-/

namespace PowerTrace

/-- A value as data formats have them. -/
inductive Document where
  /-- No value. -/
  | null
  /-- A truth value. -/
  | bool (b : Bool)
  /-- A whole number. -/
  | int (n : Int)
  /-- A double. -/
  | float (x : Float)
  /-- A text. -/
  | text (s : String)
  /-- A list. -/
  | list (items : List Document)
  /-- A table. -/
  | table (fields : List (String × Document))

instance : Inhabited Document := ⟨.null⟩

/-- What data formats differ in when records are read. -/
structure Dialect where
  /-- Whether a list may hold more items than the record has fields. -/
  sparesItems : Bool
  /-- Whether a value says no more than that it is there. -/
  isUnit : Document → Bool

namespace Document

/-- Whether a value is null. -/
def isNull : Document → Bool
  | null => true
  | _ => false

/-- The value of a name in a table. -/
def field? (name : String) : Document → Option Document
  | table fields => fields.lookup name
  | _ => none

/-- The values of the fields of a record, in the order of their names.  A table may lack any of them
and hold others; a list must hold the first `least`. -/
def record? (dialect : Dialect) (names : List String) (least : Nat) :
    Document → Option (List (Option Document))
  | table fields => some (names.map fun name => fields.lookup name)
  | list items =>
    if items.length < least then none
    else if names.length < items.length && !dialect.sparesItems then none
    else some ((List.range names.length).map (items[·]?))
  | _ => none

/-- A name, alone or as the only field of a table that says nothing about it. -/
def variant? (dialect : Dialect) : Document → Option String
  | text s => some s
  | table [(name, content)] => if dialect.isUnit content then some name else none
  | _ => none

/-- A truth value. -/
def bool? : Document → Option Bool
  | bool b => some b
  | _ => none

/-- A text. -/
def text? : Document → Option String
  | text s => some s
  | _ => none

/-- A list. -/
def list? : Document → Option (List Document)
  | list items => some items
  | _ => none

/-- A whole number from zero up to, and not including, a bound. -/
def below? (bound : Nat) : Document → Option Nat
  | int n => if 0 ≤ n && n < bound then some n.toNat else none
  | _ => none

/-- A number of 32 bits. -/
def word? (d : Document) : Option UInt32 := (d.below? UInt32.size).map UInt32.ofNat

/-- A number of 64 bits. -/
def word64? : Document → Option Nat := below? UInt64.size

/-- A value that may be null. -/
def nullable? {α : Type} (read : Document → Option α) (d : Document) : Option (Option α) :=
  if d.isNull then some none else (read d).map some

end Document

/-- Read a field that must be there. -/
def required {α : Type} (read : Document → Option α) (field : Option Document) : Option α :=
  field.bind read

/-- Read a field that has a default. -/
def optional {α : Type} (default : α) (read : Document → Option α) (field : Option Document) :
    Option α :=
  match field with
  | some d => read d
  | none => some default

end PowerTrace
