import PowerTrace.Document.Decode
import PowerTrace.Text.Decimal

/-!
# Writing a settings file

Two tables in a fixed order, a blank line between them.  A text stands between quotes or
apostrophes, one or three of them; the first enclosure in which it can stand as it is is taken.  A
text that can stand in none of them has escapes.

* `Enclosure`, `Enclosure.holds`: what a text can stand between, and which texts can;
* `textLiteral`: a text;
* `Settings.toml`: the settings of a user.
-/

namespace PowerTrace

open Text

namespace Toml

/-- What a text stands between. -/
structure Enclosure where
  /-- The character that opens and closes it. -/
  mark : Char
  /-- Whether the mark is written three times, so that a text may have several lines. -/
  tripled : Bool
  deriving DecidableEq, Repr

/-- The length of the longest run of a character, where `run` of them stand in front. -/
def longestRun (mark : Char) (run : Nat) : List Char → Nat
  | [] => run
  | c :: cs => if c = mark then longestRun mark (run + 1) cs else max run (longestRun mark 0 cs)

/-- Whether a character is always written as an escape. -/
def isControl (c : Char) : Bool :=
  c != '\t' && c != '\n' && (decide (c.toNat < 0x20) || c.toNat == 0x7F)

namespace Enclosure

/-- How many marks may follow one another inside. -/
def marksInside (e : Enclosure) : Nat := if e.tripled then 2 else 0

/-- Whether escapes are read inside. -/
def readsEscapes (e : Enclosure) : Bool := e.mark == '"'

/-- Whether a text can stand inside without escapes, tabs apart. -/
def holds (e : Enclosure) (cs : List Char) : Bool :=
  !cs.any isControl && (e.tripled || !cs.contains '\n') &&
    !(e.readsEscapes && cs.contains '\\') && decide (longestRun e.mark 0 cs ≤ e.marksInside)

/-- All enclosures, in the order they are tried. -/
def all : List Enclosure := [⟨'"', false⟩, ⟨'\'', false⟩, ⟨'"', true⟩, ⟨'\'', true⟩]

/-- The enclosure of a text. -/
def ofText (cs : List Char) : Enclosure := (all.find? (·.holds cs)).getD ⟨'"', cs.contains '\n'⟩

/-- The marks on one side. -/
def marks (e : Enclosure) : List Char := List.replicate (if e.tripled then 3 else 1) e.mark

end Enclosure

/-- A character other than a quote where escapes are read; a line feed stays as it is in a text that
may have several lines. -/
def escape (severalLines : Bool) (c : Char) : List Char :=
  if c = '\n' then if severalLines then ['\n'] else ['\\', 'n']
  else if c = '\\' then ['\\', '\\']
  else if c = '\t' then ['\\', 't']
  else if c = '\r' then ['\\', 'r']
  else if c.toNat = 0x08 then ['\\', 'b']
  else if c.toNat = 0x0C then ['\\', 'f']
  else if isControl c then
    '\\' :: 'u' :: zeroFill 4 ((Nat.toDigits 16 c.toNat).map Char.toUpper)
  else [c]

/-- A text between quotes, where `run` quotes stand in front of it.  A quote that would be one more
than may follow one another is escaped. -/
def escaped (e : Enclosure) (run : Nat) : List Char → List Char
  | [] => []
  | c :: cs =>
    if c = '"' then
      if run < e.marksInside then '"' :: escaped e (run + 1) cs else '\\' :: '"' :: escaped e 0 cs
    else escape e.tripled c ++ escaped e 0 cs

/-- A text as a settings file has it.  A text of several lines begins on a line of its own. -/
def textLiteral (s : String) : String :=
  let cs := s.toList
  let e := Enclosure.ofText cs
  let lead := if e.tripled && cs.contains '\n' then ['\n'] else []
  let body := if e.readsEscapes then escaped e 0 cs else cs
  String.ofList (e.marks ++ lead ++ body ++ e.marks)

/-- A truth value as a settings file has it. -/
def truthLiteral (b : Bool) : String := if b then "true" else "false"

end Toml

/-- The settings as the text of a settings file. -/
def Settings.toml (s : Settings) : String :=
  String.join <| [
    "[analysis]",
    "verbosity = " ++ Toml.textLiteral s.replay.verbosity.name,
    "composite_frequency = " ++ Toml.textLiteral s.replay.compositeFrequency.name,
    "retain_intervals = " ++ Toml.truthLiteral s.replay.retainIntervals,
    "",
    "[report]",
    "format = " ++ Toml.textLiteral s.report.format,
    "idle = " ++ Toml.truthLiteral s.report.idle,
    "frequency = " ++ Toml.truthLiteral s.report.frequency,
    "wakeup = " ++ Toml.truthLiteral s.report.wakeup].map (· ++ "\n")

end PowerTrace
