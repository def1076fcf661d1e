/-!
# Double-precision numbers

Numbers with a fraction are kept with 53 binary digits.  A decimal numeral stands for the nearest
such number, the one with an even mantissa where two are equally near; a number is written with
the fewest decimal digits that read back as that number, and of those digits the nearest.

Main definitions: `Double.ofDecimal` and `Double.text`.
-/

namespace BundleReach.Numeral

/-- A number of at most 53 binary digits, an infinity, or no number.  A finite one stands for
`mantissa * 2 ^ exponent`, below zero if `negative`. -/
inductive Double where
  | notANumber
  | infinite (negative : Bool)
  | finite (negative : Bool) (mantissa : Nat) (exponent : Int)
  deriving DecidableEq, Repr

/-- The least exponent of a finite number. -/
def leastExponent : Int := -1074

/-- The most that an exponent may be. -/
def mostExponent : Int := 971

/-- `num / den` to the nearest whole number, a half to the even one. -/
def roundHalfEven (num den : Nat) : Nat :=
  let q := num / den
  let r := num % den
  if 2 * r < den then q else if den < 2 * r then q + 1 else if q % 2 = 0 then q else q + 1

/-- `num * 2 ^ shift` over `den * 2 ^ -shift`: one of the two factors is one. -/
def scale (num den : Nat) (shift : Int) : Nat × Nat :=
  (num * Nat.pow 2 shift.toNat, den * Nat.pow 2 (-shift).toNat)

/-- The double nearest to `num / den`. -/
def Double.ofRatio (negative : Bool) (num den : Nat) : Double :=
  if num = 0 then finite negative 0 leastExponent
  else
    -- `num / den` lies in `[2 ^ (e - 1), 2 ^ (e + 1))`
    let e : Int := (Nat.log2 num : Int) - Nat.log2 den
    let (n, d) := scale num den (-e)
    let top := if n < d then e - 1 else e
    let exponent := max (top - 52) leastExponent
    let (n, d) := scale num den (-exponent)
    let mantissa := roundHalfEven n d
    let (mantissa, exponent) :=
      if mantissa = Nat.pow 2 53 then (Nat.pow 2 52, exponent + 1) else (mantissa, exponent)
    if mostExponent < exponent then infinite negative else finite negative mantissa exponent

/-- The number of digits of a number in base ten. -/
def decimalDigits (n : Nat) : Nat := (Nat.toDigits 10 n).length

/-- The double nearest to `digits * 10 ^ exponent`.  Numbers far out of range are told apart by
their size alone. -/
def Double.ofDecimal (negative : Bool) (digits : Nat) (exponent : Int) : Double :=
  let size := exponent + decimalDigits digits
  if digits = 0 ∨ size < -400 then finite negative 0 leastExponent
  else if 400 < size then infinite negative
  else ofRatio negative (digits * Nat.pow 10 exponent.toNat) (Nat.pow 10 (-exponent).toNat)

/-! ## Writing -/

/-- The numbers that read as one double lie between `low / den` and `high / den`, its own value
being `mid / den`; the ends belong to it if `closed`. -/
structure Interval where
  low : Nat
  mid : Nat
  high : Nat
  den : Nat
  closed : Bool

/-- The interval of a finite double other than zero.  Below a power of two the numbers lie twice as
close. -/
def intervalOf (mantissa : Nat) (exponent : Int) : Interval :=
  let step : Nat := if mantissa = Nat.pow 2 52 ∧ leastExponent < exponent then 1 else 2
  let (unit, den) := scale 1 4 exponent
  ⟨(4 * mantissa - step) * unit, 4 * mantissa * unit, (4 * mantissa + 2) * unit, den,
    mantissa % 2 = 0⟩

/-- Whether `num / den` lies in the interval. -/
def Interval.holds (i : Interval) (num den : Nat) : Bool :=
  let least := i.low * den
  let most := i.high * den
  let here := num * i.den
  if i.closed then least ≤ here && here ≤ most else least < here && here < most

/-- The point of the grid `10 ^ place` that stands for an interval, as a multiple of the grid's
step: the nearer of the two neighbours of the value, if it lies in the interval, or else the
other. -/
def Interval.onGrid? (i : Interval) (place : Int) : Option Nat :=
  let unit := Nat.pow 10 place.toNat
  let parts := Nat.pow 10 (-place).toNat
  let num := i.mid * parts
  let den := i.den * unit
  let near := roundHalfEven num den
  let below := num / den
  let far := if near = below then below + 1 else below
  if i.holds (near * unit) parts then some near
  else if i.holds (far * unit) parts then some far
  else none

/-- The power of ten that is just above a positive number. -/
def Interval.magnitude (i : Interval) : Int :=
  if i.den ≤ i.mid then decimalDigits (i.mid / i.den)
  else
    -- the number is below one: count the zeros after its point
    let zeros := decimalDigits ((i.den - 1) / i.mid) - 1
    if i.den ≤ i.mid * Nat.pow 10 zeros then 1 - (zeros : Int) else -(zeros : Int)

/-- The digits of the shortest numeral in an interval and the place of its last digit, tried with
`count` digits, then with one more, while `tries` last. -/
def Interval.shortestFrom (i : Interval) : Nat → Nat → Nat × Int
  | 0, count => (roundHalfEven i.mid i.den, i.magnitude - count)
  | tries + 1, count =>
    let place := i.magnitude - count
    match i.onGrid? place with
    | some digits => (digits, place)
    | none => shortestFrom i tries (count + 1)

/-- The digits of the shortest numeral in an interval and the place of its last digit. -/
def Interval.shortest (i : Interval) : Nat × Int := i.shortestFrom 17 1

/-- A numeral without the zeros at its end. -/
def dropZeros : Nat → Nat → Int → Nat × Int
  | 0, digits, place => (digits, place)
  | fuel + 1, digits, place =>
    if digits ≠ 0 ∧ digits % 10 = 0 then dropZeros fuel (digits / 10) (place + 1)
    else (digits, place)

/-- An exponent with its sign and at least two digits. -/
def exponentText (n : Int) : String :=
  let digits := toString n.natAbs
  (if n < 0 then "-" else "+") ++ (if digits.length < 2 then "0" ++ digits else digits)

/-- Digits with the last one at a place: positional from a ten-thousandth up to ten to the
sixteenth, with an exponent outside. -/
def numeralText (digits : Nat) (place : Int) : String :=
  let ds := Nat.toDigits 10 digits
  let point : Int := ds.length + place
  if point ≤ -4 ∨ 16 < point then
    let fraction := if ds.length ≤ 1 then "" else "." ++ String.ofList (ds.drop 1)
    String.ofList (ds.take 1) ++ fraction ++ "e" ++ exponentText (point - 1)
  else if point ≤ 0 then
    "0." ++ String.ofList (List.replicate (-point).toNat '0' ++ ds)
  else if ds.length ≤ point.toNat then
    String.ofList (ds ++ List.replicate (point.toNat - ds.length) '0') ++ ".0"
  else
    String.ofList (ds.take point.toNat) ++ "." ++ String.ofList (ds.drop point.toNat)

/-- How a number is written, with the words for what is not a finite number. -/
def Double.textWith (noNumber infinity : String) : Double → String
  | notANumber => noNumber
  | infinite negative => (if negative then "-" else "") ++ infinity
  | finite negative mantissa exponent =>
    (if negative then "-" else "") ++
      if mantissa = 0 then "0.0"
      else
        let (digits, place) := (intervalOf mantissa exponent).shortest
        let (digits, place) := dropZeros 20 digits place
        numeralText digits place

/-- How a number is written in running text. -/
def Double.text : Double → String := Double.textWith "nan" "inf"

/-- The value of a finite double as a numerator over a denominator, without its sign. -/
def ratioOf (mantissa : Nat) (exponent : Int) : Nat × Nat := scale mantissa 1 exponent

/-- Whether a double is the whole number `n`. -/
def Double.isInt (d : Double) (n : Int) : Bool :=
  match d with
  | finite negative mantissa exponent =>
    let (num, den) := ratioOf mantissa exponent
    (if negative then -(num : Int) else num) == n * den
  | _ => false

/-- Whether two doubles stand for one number, or both for none.  Zero has one value under both
signs. -/
def Double.same : Double → Double → Bool
  | notANumber, notANumber => true
  | infinite a, infinite b => a == b
  | finite a m e, finite b n f =>
    let (p, q) := ratioOf m e
    let (r, s) := ratioOf n f
    p * s == r * q && (a == b || m == 0)
  | _, _ => false

end BundleReach.Numeral
