import PowerTrace.Error

/-!
# Lines

A line ends with a line feed, which is not part of it; a carriage return right before the line
feed is dropped with it.  What follows the last line feed is a line only if it holds something, and
keeps its carriage return.  Every line of a file is text on its own: one that is not UTF-8 is an
error when it is reached, and not before.
-/

namespace PowerTrace.Text

variable {α : Type} [BEq α]

/-- Drop one `cr` from the end. -/
def dropReturn (cr : α) (xs : List α) : List α :=
  match xs.getLast? with
  | some x => if x == cr then xs.dropLast else xs
  | none => xs

/-- The lines that an alphabet with the given line feed and carriage return makes of a list. -/
def splitLines (lf cr : α) (xs : List α) : List (List α) :=
  let pieces := xs.splitOn lf
  pieces.dropLast.map (dropReturn cr) ++ (pieces.getLast?.toList.filter (!·.isEmpty))

/-- The lines of a text. -/
def lines (cs : List Char) : List (List Char) := splitLines '\n' '\r' cs

/-- Write lines, each with its line feed. -/
def unlines (ls : List (List Char)) : List Char := ls.flatMap (· ++ ['\n'])

/-- A line of a file: its characters, or the reason why there are none. -/
abbrev FileLine := Except IoError (List Char)

/-- The text that bytes hold in UTF-8. -/
def decode (bytes : List UInt8) : FileLine :=
  match String.fromUTF8? ⟨bytes.toArray⟩ with
  | some s => .ok s.toList
  | none => .error .invalidText

/-- The lines of a file. -/
def fileLines (bytes : ByteArray) : List FileLine :=
  (splitLines 0x0A 0x0D bytes.data.toList).map decode

/-- The first line of a file, empty for an empty file. -/
def firstLine (bytes : ByteArray) : FileLine := (fileLines bytes).headD (.ok [])

end PowerTrace.Text
