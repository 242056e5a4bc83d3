/-!
# Text on a terminal

A terminal takes some characters as commands: single control characters, and sequences that begin
with an escape character and say for themselves where they end.  What a log shows of a text is what
is left without them.

* `TerminalState`, `TerminalState.step`: where in a sequence a character stands, and whether it is
  shown;
* `shown`: the characters of a text that are shown.

Tabs, line feeds, form feeds and carriage returns are shown.  Inside a sequence without a string
they end the sequence; a string hides them.
-/

namespace PowerTrace.Text

/-- Where in a sequence a terminal is. -/
inductive TerminalState where
  /-- In no sequence. -/
  | plain
  /-- After an escape character. -/
  | escape
  /-- In a sequence that one more letter, digit or mark ends. -/
  | selection
  /-- In a control sequence, after `[`. -/
  | control
  /-- At the start of a device control string, after `P`. -/
  | device
  /-- After a parameter of a device control string. -/
  | deviceParameter
  /-- After the first mark that follows the parameters of a device control string. -/
  | deviceSelection
  /-- In a string that a string terminator ends. -/
  | string
  /-- In an operating system command, after `]`; a bell ends it. -/
  | command
  deriving DecidableEq, Repr

/-- Whether a control character is layout, and so is shown. -/
def isLayout (c : Char) : Bool := c == '\t' || c == '\n' || c == '\x0c' || c == '\r'

/-- Whether a character is shown when it stands in no sequence. -/
def isShown (c : Char) : Bool := isLayout c || (decide (0x20 ≤ c.toNat) && c.toNat != 0x7F)

/-- Whether a character ends a string: its encoding holds the byte of the string terminator. -/
def endsString (c : Char) : Bool := (String.utf8EncodeChar c).contains 0x9C

namespace TerminalState

/-- Whether a code is from `first` up to `last`. -/
def within (first last : Nat) (c : Char) : Bool :=
  decide (first ≤ c.toNat) && decide (c.toNat ≤ last)

/-- The state after the character that follows an escape character. -/
def afterEscape (c : Char) : TerminalState :=
  if c = '[' then control
  else if c = ']' then command
  else if c = 'P' then device
  else if c = 'X' || c = '^' || c = '_' then string
  else if within 0x20 0x2F c then selection
  else if within 0x30 0x7E c then plain
  else escape

/-- The state after a character that is part of a sequence. -/
def inside (s : TerminalState) (c : Char) : TerminalState :=
  match s with
  | plain => plain
  | escape => afterEscape c
  | selection => if within 0x30 0x7E c then plain else selection
  | control => if within 0x40 0x7E c then plain else control
  | device =>
    if within 0x20 0x2F c then deviceSelection
    else if within 0x30 0x3F c then deviceParameter
    else if within 0x40 0x7E c then string
    else device
  | deviceParameter =>
    if within 0x20 0x2F c then deviceSelection
    else if within 0x3C 0x7E c then string
    else deviceParameter
  | deviceSelection => if within 0x30 0x7E c then string else deviceSelection
  | string => if endsString c then plain else string
  | command => if c = '\x07' then plain else command

/-- Whether a layout character ends the sequence. -/
def yieldsToLayout : TerminalState → Bool
  | plain | escape | selection | control => true
  | device | deviceParameter | deviceSelection | string | command => false

/-- The state after a character, and whether the character is shown.  Cancel and substitute end
every sequence, and an escape character begins another. -/
def step (s : TerminalState) (c : Char) : TerminalState × Bool :=
  if c = '\x18' || c = '\x1a' then (plain, false)
  else if c = '\x1b' then (escape, false)
  else if s.yieldsToLayout && isLayout c then (plain, true)
  else if s = plain then (plain, isShown c)
  else (s.inside c, false)

end TerminalState

/-- The characters that are shown from a state on. -/
def shownFrom (s : TerminalState) : List Char → List Char
  | [] => []
  | c :: cs =>
    let rest := shownFrom (s.step c).1 cs
    if (s.step c).2 then c :: rest else rest

/-- The characters of a text that are shown. -/
def shown (cs : List Char) : List Char := shownFrom .plain cs

end PowerTrace.Text
