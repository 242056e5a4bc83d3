import PowerTrace.Text.Blank

/-!
# Blanks, comments and texts of a settings file

The lexical rules of TOML.  A rule reads from the front of a text and gives what it read and the
rest, or nothing if the text does not begin that way.

* `blank`, `gap`, `lineEnd?`: what stands between the parts of a file;
* `text?`: a quoted text in any of its four forms;
* `bareKey?`: a name without quotes.
-/

namespace PowerTrace.Toml

/-- What a rule of the grammar reads from the front of a text. -/
abbrev Rule (α : Type) := List Char → Option (α × List Char)

/-- A space or a tab. -/
def isBlankChar (c : Char) : Bool := c == ' ' || c == '\t'

/-- Characters that may stand in comments and literal texts: all but control characters, tabs
excepted. -/
def isPlain (c : Char) : Bool := c == '\t' || (decide (0x20 ≤ c.toNat) && c.toNat != 0x7F)

/-- Pass over spaces and tabs. -/
def blank (cs : List Char) : List Char := cs.dropWhile isBlankChar

/-- Pass over a line feed, or a carriage return and a line feed. -/
def newline? : List Char → Option (List Char)
  | '\n' :: rest => some rest
  | '\r' :: '\n' :: rest => some rest
  | _ => none

/-- Pass over a comment, if there is one. -/
def comment (cs : List Char) : List Char :=
  match cs with
  | '#' :: rest => rest.dropWhile isPlain
  | _ => cs

/-- Pass over the end of a line: blanks, a comment if there is one, and a line break unless the text
ends. -/
def lineEnd? (cs : List Char) : Option (List Char) :=
  match comment (blank cs) with
  | [] => some []
  | rest => newline? rest

/-- Pass over blanks, line breaks and comments; `inComment` says whether a comment is open. -/
def gapFrom : (inComment : Bool) → List Char → List Char
  | _, [] => []
  | _, '\n' :: rest => gapFrom false rest
  | _, '\r' :: '\n' :: rest => gapFrom false rest
  | true, c :: rest => if isPlain c then gapFrom true rest else c :: rest
  | false, c :: rest =>
    if isBlankChar c then gapFrom false rest
    else if c = '#' then gapFrom true rest
    else c :: rest

/-- Pass over blanks, line breaks and comments. -/
def gap (cs : List Char) : List Char := gapFrom false cs

/-! ### Quoted texts -/

/-- The value of a digit in base sixteen. -/
def hexDigit? (c : Char) : Option Nat :=
  if c.isDigit then some (c.toNat - '0'.toNat)
  else if 'a' ≤ c && c ≤ 'f' then some (c.toNat - 'a'.toNat + 10)
  else if 'A' ≤ c && c ≤ 'F' then some (c.toNat - 'A'.toNat + 10)
  else none

/-- The character whose number is written with the given digits in base sixteen. -/
def scalar? (digits : List Char) : Option Char := do
  let n := (← digits.mapM hexDigit?).foldl (fun n d => 16 * n + d) 0
  if h : n.isValidChar then some (Char.ofNatAux n h) else none

/-- The character that a backslash and a letter stand for. -/
def escaped? : Char → Option Char
  | 'b' => some '\x08'
  | 't' => some '\t'
  | 'n' => some '\n'
  | 'f' => some '\x0c'
  | 'r' => some '\r'
  | '"' => some '"'
  | '\\' => some '\\'
  | _ => none

/-- Put a character in front of what a rule read. -/
def prepend (c : Char) (r : Option (List Char × List Char)) : Option (List Char × List Char) :=
  r.map fun (cs, rest) => (c :: cs, rest)

/-- A text up to its closing quote, with escapes. -/
def basicBody : Rule (List Char)
  | [] => none
  | '"' :: rest => some ([], rest)
  | '\\' :: 'u' :: a :: b :: c :: d :: rest => do
    prepend (← scalar? [a, b, c, d]) (basicBody rest)
  | '\\' :: 'U' :: a :: b :: c :: d :: e :: f :: g :: h :: rest => do
    prepend (← scalar? [a, b, c, d, e, f, g, h]) (basicBody rest)
  | '\\' :: e :: rest => do prepend (← escaped? e) (basicBody rest)
  | c :: rest => if isPlain c && c != '\\' then prepend c (basicBody rest) else none

/-- A text up to its closing apostrophe, as it stands. -/
def literalBody : Rule (List Char)
  | [] => none
  | '\'' :: rest => some ([], rest)
  | c :: rest => if isPlain c then prepend c (literalBody rest) else none

/-- Whether a line break follows, maybe after blanks. -/
def breaksLine (cs : List Char) : Bool := (newline? (blank cs)).isSome

/-- A text of several lines up to its three closing quotes, with escapes.  A backslash before a line
break joins the lines: `joining` says that blanks and line breaks are passed over. -/
def basicLines : (joining : Bool) → Rule (List Char)
  | _, [] => none
  | _, '"' :: '"' :: '"' :: '"' :: '"' :: rest => some (['"', '"'], rest)
  | _, '"' :: '"' :: '"' :: '"' :: rest => some (['"'], rest)
  | _, '"' :: '"' :: '"' :: rest => some ([], rest)
  | joining, '\n' :: rest =>
    if joining then basicLines true rest else prepend '\n' (basicLines false rest)
  | joining, '\r' :: '\n' :: rest =>
    if joining then basicLines true rest else prepend '\n' (basicLines false rest)
  | _, '\\' :: 'u' :: a :: b :: c :: d :: rest => do
    prepend (← scalar? [a, b, c, d]) (basicLines false rest)
  | _, '\\' :: 'U' :: a :: b :: c :: d :: e :: f :: g :: h :: rest => do
    prepend (← scalar? [a, b, c, d, e, f, g, h]) (basicLines false rest)
  | joining, c :: rest =>
    if joining && isBlankChar c then basicLines true rest
    else if c = '\\' then
      if breaksLine rest then basicLines true rest
      else match rest with
        | e :: rest => do prepend (← escaped? e) (basicLines false rest)
        | [] => none
    else if isPlain c then prepend c (basicLines false rest)
    else none

/-- A text of several lines up to its three closing apostrophes, as it stands. -/
def literalLines : Rule (List Char)
  | [] => none
  | '\'' :: '\'' :: '\'' :: '\'' :: '\'' :: rest => some (['\'', '\''], rest)
  | '\'' :: '\'' :: '\'' :: '\'' :: rest => some (['\''], rest)
  | '\'' :: '\'' :: '\'' :: rest => some ([], rest)
  | '\n' :: rest => prepend '\n' (literalLines rest)
  | '\r' :: '\n' :: rest => prepend '\n' (literalLines rest)
  | c :: rest => if isPlain c then prepend c (literalLines rest) else none

/-- Drop a line break right after the opening quotes. -/
def afterOpening (cs : List Char) : List Char := (newline? cs).getD cs

/-- A quoted text on one line. -/
def lineText? : Rule (List Char)
  | '"' :: rest => basicBody rest
  | '\'' :: rest => literalBody rest
  | _ => none

/-- A quoted text. -/
def text? : Rule (List Char)
  | '"' :: '"' :: '"' :: rest => basicLines false (afterOpening rest)
  | '\'' :: '\'' :: '\'' :: rest => literalLines (afterOpening rest)
  | cs => lineText? cs

/-! ### Names -/

/-- Characters of a name without quotes. -/
def isBareChar (c : Char) : Bool := c.isAlphanum || c == '-' || c == '_'

/-- A name without quotes. -/
def bareKey? (cs : List Char) : Option (List Char × List Char) :=
  let name := cs.takeWhile isBareChar
  if name.isEmpty then none else some (name, cs.dropWhile isBareChar)

/-- A name, quoted or not. -/
def simpleKey? (cs : List Char) : Option (String × List Char) :=
  ((lineText? cs).or (bareKey? cs)).map fun (name, rest) => (String.ofList name, rest)

end PowerTrace.Toml
