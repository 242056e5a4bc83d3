import PowerTrace.Document.Basic
import PowerTrace.Text.Number
import PowerTrace.Toml.Text

/-!
# Numbers, dates and times of a settings file

* `number?`: a whole number of 64 bits, in base ten, sixteen, eight or two, or a double; single
  underscores may stand between digits;
* `dateTime?`: a date, a time of day, or both, maybe with an offset.
-/

namespace PowerTrace.Toml

/-! ### Numbers -/

/-- The digits that follow a first one; an underscore must stand between two of them. -/
def moreDigits (isDigit : Char → Bool) : Rule (List Char)
  | [] => some ([], [])
  | ['_'] => none
  | '_' :: c :: rest => if isDigit c then prepend c (moreDigits isDigit rest) else none
  | c :: rest => if isDigit c then prepend c (moreDigits isDigit rest) else some ([], c :: rest)

/-- A run of digits, at least one. -/
def digits? (isDigit : Char → Bool) : Rule (List Char)
  | c :: rest => if isDigit c then prepend c (moreDigits isDigit rest) else none
  | [] => none

/-- The digits of a whole number in base ten: no zero stands in front of another digit. -/
def decimalDigits? : Rule (List Char)
  | '0' :: rest => some (['0'], rest)
  | cs => digits? Char.isDigit cs

/-- Digits of a base up to sixteen. -/
def isDigitOf (base : Nat) (c : Char) : Bool := (hexDigit? c).any (· < base)

/-- A whole number of 64 bits with a sign, if it is one. -/
def int64? (n : Int) : Option Document :=
  if Text.fitsSigned UInt64.size n then some (.int n) else none

/-- A whole number after the mark of its base. -/
def based? (base : Nat) (cs : List Char) : Option (Document × List Char) := do
  let (digits, rest) ← digits? (isDigitOf base) cs
  let n := digits.foldl (fun n c => base * n + (hexDigit? c).getD 0) 0
  some (← int64? n, rest)

/-- The part of a double after its point. -/
def fraction? : Rule (List Char)
  | '.' :: rest => digits? Char.isDigit rest
  | cs => some ([], cs)

/-- The sign of a number, and what follows it. -/
def sign : List Char → Bool × List Char
  | '-' :: rest => (true, rest)
  | '+' :: rest => (false, rest)
  | cs => (false, cs)

/-- The exponent of a double, zero without one. -/
def exponent? (cs : List Char) : Option (Int × List Char) :=
  match cs with
  | [] => some (0, [])
  | c :: rest =>
    if c = 'e' || c = 'E' then do
      let (negative, rest) := sign rest
      let (digits, rest) ← digits? Char.isDigit rest
      let n : Int := Nat.ofDigitChars 10 digits 0
      some (if negative then -n else n, rest)
    else some (0, cs)

/-- Whether a number goes on as a double. -/
def goesOnAsFloat (cs : List Char) : Bool :=
  match cs with
  | c :: _ => c == '.' || c == 'e' || c == 'E'
  | [] => false

/-- A double with a sign, unless it is too large. -/
def float? (negative : Bool) (mantissa : Nat) (exponent : Int) : Option Document :=
  let size := (⟨mantissa, exponent⟩ : Text.Scientific).toFloat
  if negative then some (.float (-size))
  else if size == Text.infinity then none
  else some (.float size)

/-- A number in base ten. -/
def decimal? (negative : Bool) (cs : List Char) : Option (Document × List Char) := do
  let (whole, rest) ← decimalDigits? cs
  if goesOnAsFloat rest then
    let (fraction, rest) ← fraction? rest
    let (e, rest) ← exponent? rest
    let mantissa := Nat.ofDigitChars 10 (whole ++ fraction) 0
    some (← float? negative mantissa (e - fraction.length), rest)
  else
    let n : Int := Nat.ofDigitChars 10 whole 0
    some (← int64? (if negative then -n else n), rest)

/-- The words that stand for doubles. -/
def floatWord? (negative : Bool) (cs : List Char) : Option (Document × List Char) :=
  match Text.after? "inf".toList cs, Text.after? "nan".toList cs with
  | some rest, _ => some (.float (if negative then -Text.infinity else Text.infinity), rest)
  | none, some rest => some (.float (0 / 0), rest)
  | none, none => none

/-- A number. -/
def number? (cs : List Char) : Option (Document × List Char) :=
  match cs with
  | '0' :: 'x' :: rest => based? 16 rest
  | '0' :: 'o' :: rest => based? 8 rest
  | '0' :: 'b' :: rest => based? 2 rest
  | _ =>
    let (negative, rest) := sign cs
    (floatWord? negative rest).or (decimal? negative rest)

/-! ### Dates and times -/

/-- A number with a fixed count of digits. -/
def fixedNumber? (count : Nat) (cs : List Char) : Option (Nat × List Char) :=
  let digits := cs.take count
  if digits.length = count && digits.all Char.isDigit then
    some (Nat.ofDigitChars 10 digits 0, cs.drop count)
  else none

/-- Pass over a character. -/
def expect? (c : Char) : List Char → Option (List Char)
  | d :: rest => if c = d then some rest else none
  | [] => none

/-- How many days a month has. -/
def monthLength (year month : Nat) : Nat :=
  if month = 2 then
    if year % 4 = 0 && (year % 100 != 0 || year % 400 = 0) then 29 else 28
  else if month = 4 || month = 6 || month = 9 || month = 11 then 30
  else 31

/-- Pass over a date. -/
def date? (cs : List Char) : Option (List Char) := do
  let (year, rest) ← fixedNumber? 4 cs
  let (month, rest) ← fixedNumber? 2 (← expect? '-' rest)
  let (day, rest) ← fixedNumber? 2 (← expect? '-' rest)
  if 1 ≤ month && month ≤ 12 && 1 ≤ day && day ≤ monthLength year month then some rest else none

/-- Pass over hours and minutes. -/
def clock? (cs : List Char) : Option (List Char) := do
  let (hour, rest) ← fixedNumber? 2 cs
  let (minute, rest) ← fixedNumber? 2 (← expect? ':' rest)
  if hour ≤ 23 && minute ≤ 59 then some rest else none

/-- Pass over the fraction of a second, if there is one. -/
def secondFraction (cs : List Char) : List Char :=
  match cs with
  | '.' :: c :: rest => if c.isDigit then rest.dropWhile Char.isDigit else cs
  | _ => cs

/-- Pass over a time of day; a minute may have a leap second. -/
def time? (cs : List Char) : Option (List Char) := do
  let (second, rest) ← fixedNumber? 2 (← expect? ':' (← clock? cs))
  if second ≤ 60 then some (secondFraction rest) else none

/-- Pass over the offset of a time, if there is one. -/
def offset (cs : List Char) : List Char :=
  match cs with
  | c :: rest =>
    if c = 'Z' || c = 'z' then rest
    else if c = '+' || c = '-' then (clock? rest).getD cs
    else cs
  | [] => cs

/-- Pass over a time and its offset after a date, if there is one. -/
def timeAfterDate (cs : List Char) : List Char :=
  match cs with
  | c :: rest =>
    if c = 'T' || c = 't' || c = ' ' then ((time? rest).map offset).getD cs else cs
  | [] => cs

/-- A date, a time, or both.  Its text is the only field of a table of its own kind. -/
def dateTime? (cs : List Char) : Option (Document × List Char) := do
  let rest ← ((date? cs).map timeAfterDate).or (time? cs)
  let written := String.ofList (cs.take (cs.length - rest.length))
  some (.table [("date-time", .text written)], rest)

end PowerTrace.Toml
