/-!
# Reading numbers

The numbers of traces, settings and host files.  Whole numbers are decimal digits after an optional
plus sign, or a minus sign where the number may be negative; every one has a width, and a number too
wide is no number.  Doubles are decimals with an optional fraction and exponent, or the words for
the infinities and for NaN in any case, rounded to the nearest double.

* `digits?`, `nat?`, `int?`: whole numbers of any width;
* `word32?`, `word64?`, `int32?`, `int64?`: of a given one;
* `Scientific`, `scientific?`, `float?`: doubles.
-/

namespace PowerTrace.Text

/-- The value of a run of digits that holds at least one. -/
def digits? (cs : List Char) : Option Nat :=
  if cs.isEmpty || !cs.all Char.isDigit then none else some (Nat.ofDigitChars 10 cs 0)

/-- A whole number with an optional plus sign. -/
def nat? : List Char → Option Nat
  | '+' :: cs => digits? cs
  | cs => digits? cs

/-- A whole number with an optional sign. -/
def int? : List Char → Option Int
  | '-' :: cs => (digits? cs).map fun n => -(n : Int)
  | cs => (nat? cs).map Int.ofNat

/-- A number of 32 bits. -/
def word32? (cs : List Char) : Option UInt32 := do
  let n ← nat? cs
  if n < UInt32.size then some (UInt32.ofNat n) else none

/-- A number of 64 bits. -/
def word64? (cs : List Char) : Option Nat := (nat? cs).filter (· < UInt64.size)

/-- Whether a number is among the `size` signed numbers around zero. -/
def fitsSigned (size : Nat) (n : Int) : Bool :=
  decide (-Int.ofNat (size / 2) ≤ n) && decide (n < Int.ofNat (size / 2))

/-- A signed number of 32 bits. -/
def int32? (cs : List Char) : Option Int := (int? cs).filter (fitsSigned UInt32.size)

/-- A signed number of 64 bits. -/
def int64? (cs : List Char) : Option Int := (int? cs).filter (fitsSigned UInt64.size)

/-- A signed number as one of 32 bits without a sign, if it is that small. -/
def toWord32? (n : Int) : Option UInt32 :=
  if 0 ≤ n && n < Int.ofNat UInt32.size then some (UInt32.ofNat n.toNat) else none

/-! ### Doubles -/

/-- The decimal `mantissa · 10 ^ exponent`. -/
structure Scientific where
  /-- Its digits. -/
  mantissa : Nat
  /-- The power of ten they are scaled by. -/
  exponent : Int
  deriving DecidableEq, Repr

/-- The infinite double. -/
def infinity : Float := 1 / 0

/-- The double nearest to a decimal.  Powers of ten that no double reaches are not computed. -/
def Scientific.toFloat (s : Scientific) : Float :=
  if s.mantissa = 0 then 0
  else if 400 < s.exponent then infinity
  else if s.exponent + s.mantissa.log2 < -400 then 0
  else Float.ofScientific s.mantissa (decide (s.exponent < 0)) s.exponent.natAbs

/-- The exponent that may follow a decimal: nothing, or `e` and a signed number. -/
def exponent? : List Char → Option Int
  | [] => some 0
  | c :: cs => if c = 'e' || c = 'E' then int? cs else none

/-- A decimal without sign: digits, at least one, with at most one point among or around them, and
an optional exponent. -/
def scientific? (cs : List Char) : Option Scientific := do
  let whole := cs.takeWhile Char.isDigit
  let rest := cs.dropWhile Char.isDigit
  let fraction := match rest with
    | '.' :: r => r.takeWhile Char.isDigit
    | _ => []
  let tail := match rest with
    | '.' :: r => r.dropWhile Char.isDigit
    | r => r
  if whole.isEmpty && fraction.isEmpty then none
  else
    let e ← exponent? tail
    some ⟨Nat.ofDigitChars 10 (whole ++ fraction) 0, e - fraction.length⟩

/-- A double without sign. -/
def unsignedFloat? (cs : List Char) : Option Float :=
  let word := cs.map Char.toLower
  if word = "inf".toList || word = "infinity".toList then some infinity
  else if word = "nan".toList then some (0 / 0)
  else (scientific? cs).map Scientific.toFloat

/-- A double with an optional sign. -/
def float? : List Char → Option Float
  | '+' :: cs => unsignedFloat? cs
  | '-' :: cs => (unsignedFloat? cs).map (-·)
  | cs => unsignedFloat? cs

/-! ### Writing and reading back -/

theorem digits?_toDigits (n : Nat) : digits? (Nat.toDigits 10 n) = some n := by
  have hne : (Nat.toDigits 10 n).isEmpty = false := by
    simp [Nat.toDigits_ne_nil]
  have hall : (Nat.toDigits 10 n).all Char.isDigit = true :=
    List.all_eq_true.2 fun _ hc => Nat.isDigit_of_mem_toDigits (by decide) (by decide) hc
  simp [digits?, hne, hall, Nat.ofDigitChars_ten_toDigits]

end PowerTrace.Text
