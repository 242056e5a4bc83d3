/-!
# Doubles as decimal text

A double is a whole number of powers of two, so every question about its decimals is one about
whole numbers.

* `Binary.ofFloat`: a double as sign, mantissa and exponent;
* `roundDiv`: a quotient rounded to the nearest whole number, a half to the even one;
* `fixed`: a given number of decimal places;
* `shortest`: the fewest digits that read back as the same double, and of those the nearest.
-/

namespace PowerTrace.Text

/-- A double taken apart. -/
inductive Binary where
  /-- Not a number. -/
  | nan
  /-- An infinity. -/
  | infinite (negative : Bool)
  /-- The number `± mantissa · 2 ^ exponent`; zero has the mantissa zero. -/
  | finite (negative : Bool) (mantissa : Nat) (exponent : Int)
  deriving DecidableEq, Repr

/-- A power of two. -/
def pow2 (n : Nat) : Nat := Nat.pow 2 n

/-- A power of ten. -/
def pow10 (n : Nat) : Nat := Nat.pow 10 n

/-- Take a double apart by the fields of its 64 bits: the sign, eleven bits of exponent and 52 bits
of fraction. -/
def Binary.ofFloat (x : Float) : Binary :=
  let bits : Nat := x.toBits.toNat
  let negative := decide (pow2 63 ≤ bits)
  let exponent : Nat := bits / pow2 52 % pow2 11
  let fraction : Nat := bits % pow2 52
  if exponent = 2047 then
    if fraction = 0 then .infinite negative else .nan
  else if exponent = 0 then .finite negative fraction (-1074)
  else .finite negative (pow2 52 + fraction) ((exponent : Int) - 1075)

/-- The whole number nearest to `num / den`, the even one when two are equally near. -/
def roundDiv (num den : Nat) : Nat :=
  let q := num / den
  let r := num % den
  if 2 * r < den then q
  else if den < 2 * r then q + 1
  else if q % 2 = 0 then q else q + 1

theorem roundDiv_bounds {num den : Nat} (h : 0 < den) :
    2 * (roundDiv num den * den) ≤ 2 * num + den ∧
      2 * num ≤ 2 * (roundDiv num den * den) + den := by
  have hm := Nat.div_add_mod num den
  have hl := Nat.mod_lt num h
  have hc : num / den * den = den * (num / den) := Nat.mul_comm _ _
  have hs : (num / den + 1) * den = den * (num / den) + den := by
    rw [Nat.add_mul, Nat.one_mul, hc]
  unfold roundDiv
  dsimp only
  split
  · omega
  · split
    · omega
    · split <;> omega

/-! ### A given number of places -/

/-- `mantissa · 2 ^ exponent · 10 ^ places`, rounded to a whole number. -/
def scaled (places mantissa : Nat) (exponent : Int) : Nat :=
  roundDiv (mantissa * pow10 places * pow2 exponent.toNat) (pow2 (-exponent).toNat)

/-- Put zeros in front of digits that are fewer than `n`. -/
def zeroFill (n : Nat) (cs : List Char) : List Char := List.replicate (n - cs.length) '0' ++ cs

/-- The digits of `n / 10 ^ places`, with a point if there are places. -/
def placed (places n : Nat) : List Char :=
  if places = 0 then Nat.toDigits 10 n
  else
    Nat.toDigits 10 (n / pow10 places) ++
      '.' :: zeroFill places (Nat.toDigits 10 (n % pow10 places))

/-- The sign of a number: a minus sign, or `plus` for one that is not negative. -/
def signText (plus : List Char) (negative : Bool) : List Char := if negative then ['-'] else plus

/-- A double with a given number of places, a half rounded to the even neighbour, and `plus` in
front of it if it is not negative. -/
def fixedWith (plus : List Char) (places : Nat) (x : Float) : String :=
  String.ofList <| match Binary.ofFloat x with
    | .nan => "NaN".toList
    | .infinite negative => signText plus negative ++ "inf".toList
    | .finite negative m e => signText plus negative ++ placed places (scaled places m e)

/-- A double with a given number of places. -/
def fixed (places : Nat) (x : Float) : String := fixedWith [] places x

/-- A double with a given number of places and always a sign. -/
def fixedSigned (places : Nat) (x : Float) : String := fixedWith ['+'] places x

/-! ### The fewest digits that read back -/

/-- The reals that round to a double, as quarters of its last place: from `low` to `high` around
`value`, all to be multiplied by `2 ^ exponent`; the ends belong to it where `closed` says so. -/
structure Neighbourhood where
  /-- The lower end. -/
  low : Nat
  /-- The double itself. -/
  value : Nat
  /-- The upper end. -/
  high : Nat
  /-- The power of two they are scaled by. -/
  exponent : Int
  /-- Whether the ends round to the double too. -/
  closed : Bool

/-- The neighbourhood of `mantissa · 2 ^ exponent`.  Below a power of two the doubles lie twice as
dense, unless it is the least normal one. -/
def Neighbourhood.ofBinary (mantissa : Nat) (exponent : Int) : Neighbourhood where
  low := 4 * mantissa - if mantissa = pow2 52 && decide (-1074 < exponent) then 1 else 2
  value := 4 * mantissa
  high := 4 * mantissa + 2
  exponent := exponent - 2
  closed := mantissa % 2 == 0

/-- The decimal `digits · 10 ^ exponent`. -/
structure Digits where
  /-- The digits as a number. -/
  digits : Nat
  /-- The power of ten they are scaled by. -/
  exponent : Int
  deriving DecidableEq, Repr

/-- The multiple of `10 ^ t` in a neighbourhood that is nearest to its value, if there is one.  Only
the two multiples next to the value can be; on a tie the even one is taken. -/
def Neighbourhood.onGrid? (n : Neighbourhood) (t : Int) : Option Nat :=
  let up := pow2 n.exponent.toNat * pow10 (-t).toNat
  let step := pow2 (-n.exponent).toNat * pow10 t.toNat
  let below := n.value * up / step
  let inside := fun c =>
    if n.closed then decide (n.low * up ≤ c * step) && decide (c * step ≤ n.high * up)
    else decide (n.low * up < c * step) && decide (c * step < n.high * up)
  if inside below && inside (below + 1) then
    let downward := n.value * up - below * step
    let upward := (below + 1) * step - n.value * up
    some (if downward < upward then below
      else if upward < downward then below + 1
      else if below % 2 = 0 then below else below + 1)
  else if inside below then some below
  else if inside (below + 1) then some (below + 1)
  else none

/-- Search ever finer grids, from `10 ^ t` downward, for the first that meets a neighbourhood. -/
def Neighbourhood.search (n : Neighbourhood) : (grids : Nat) → (t : Int) → Option Digits
  | 0, _ => none
  | grids + 1, t =>
    match n.onGrid? t with
    | some digits => some ⟨digits, t⟩
    | none => n.search grids (t - 1)

/-- A power of ten above every number of the neighbourhood of `mantissa · 2 ^ exponent`: the binary
length times a little more than the logarithm of two. -/
def coarsestGrid (mantissa : Nat) (exponent : Int) : Int :=
  (exponent + mantissa.log2 + 2) * 30103 / 100000 + 1

/-- The fewest digits that read back as `mantissa · 2 ^ exponent`, for a mantissa other than zero.
Seventeen digits always do, so no more than twenty grids are ever tried. -/
def shortest (mantissa : Nat) (exponent : Int) : Digits :=
  let n := Neighbourhood.ofBinary mantissa exponent
  (n.search 24 (coarsestGrid mantissa exponent)).getD ⟨0, 0⟩

end PowerTrace.Text
