import PowerTrace.Document.Basic
import PowerTrace.Text.Column
import PowerTrace.Text.Decimal

/-!
# Documents as JSON text

JSON with one item or field on a line, each level indented by two spaces.  Doubles are written with
the fewest digits that read back; they are written out from `0.00001` up to below `10 ^ 16` and with
an exponent elsewhere.  What JSON has no number for is null.
-/

namespace PowerTrace

open Text

namespace Json

/-- The dialect of JSON: a list has as many items as the record has fields, and null says
nothing. -/
def dialect : Dialect where
  sparesItems := false
  isUnit := Document.isNull

/-- A character inside a text: quotes, backslashes and control characters are escaped. -/
def escape (c : Char) : List Char :=
  if c = '"' then ['\\', '"']
  else if c = '\\' then ['\\', '\\']
  else if c.toNat = 0x08 then ['\\', 'b']
  else if c = '\t' then ['\\', 't']
  else if c = '\n' then ['\\', 'n']
  else if c.toNat = 0x0C then ['\\', 'f']
  else if c = '\r' then ['\\', 'r']
  else if c.toNat < 0x20 then '\\' :: 'u' :: zeroFill 4 (Nat.toDigits 16 c.toNat)
  else [c]

/-- A text in quotes. -/
def quoted (s : String) : String := String.ofList ('"' :: s.toList.flatMap escape ++ ['"'])

/-- Digits with a point after the first `whole` of them; zeros are filled in where digits lack. -/
def pointed (whole : Int) (digits : List Char) : List Char :=
  if whole ≤ 0 then "0.".toList ++ List.replicate (-whole).toNat '0' ++ digits
  else
    let before := digits.take whole.toNat
    let after := digits.drop whole.toNat
    before ++ List.replicate (whole.toNat - before.length) '0' ++ '.' ::
      if after.isEmpty then ['0'] else after

/-- Digits with a point after the first, if there are more, and an exponent. -/
def exponential (exponent : Int) (digits : List Char) : List Char :=
  let mantissa := match digits with
    | [d] => [d]
    | d :: rest => d :: '.' :: rest
    | [] => []
  let sign := if exponent < 0 then '-' else '+'
  mantissa ++ 'e' :: sign :: Nat.toDigits 10 exponent.natAbs

/-- A number other than zero without its sign. -/
def magnitude (mantissa : Nat) (exponent : Int) : List Char :=
  let d := shortest mantissa exponent
  let digits := Nat.toDigits 10 d.digits
  let whole := d.exponent + digits.length
  if -5 < whole && whole ≤ 16 then pointed whole digits else exponential (whole - 1) digits

/-- A double. -/
def number (x : Float) : String :=
  String.ofList <| match Binary.ofFloat x with
    | .nan | .infinite _ => "null".toList
    | .finite negative m e =>
      signText [] negative ++ if m = 0 then "0.0".toList else magnitude m e

mutual

/-- A document whose first line is already indented. -/
def render (level : Nat) : Document → String
  | .null => "null"
  | .bool b => if b then "true" else "false"
  | .int n => toString n
  | .float x => number x
  | .text s => quoted s
  | .list items =>
    if items.isEmpty then "[]"
    else "[\n" ++ ",\n".intercalate (renderItems (level + 1) items) ++ "\n" ++
      spaces (2 * level) ++ "]"
  | .table fields =>
    if fields.isEmpty then "\x7b\x7d"
    else "\x7b\n" ++ ",\n".intercalate (renderFields (level + 1) fields) ++ "\n" ++
      spaces (2 * level) ++ "\x7d"

/-- The items of a list, each on lines of its own. -/
def renderItems (level : Nat) : List Document → List String
  | [] => []
  | d :: rest => (spaces (2 * level) ++ render level d) :: renderItems level rest

/-- The fields of a table, each on lines of its own. -/
def renderFields (level : Nat) : List (String × Document) → List String
  | [] => []
  | (name, d) :: rest =>
    (spaces (2 * level) ++ quoted name ++ ": " ++ render level d) :: renderFields level rest

end

/-- The text of a document. -/
def text (d : Document) : String := render 0 d

end Json

end PowerTrace
