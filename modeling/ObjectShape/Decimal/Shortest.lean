import ObjectShape.Decimal.Powers

/-!
# Shortest decimals

A finite float has many decimals that round to it. The shortest of them, and of the shortest the
nearest, is written in positional notation. The interval of reals that round to the float and the
two neighbours of the float on a decimal grid are compared in exact integers.
-/

namespace ObjectShape.Decimal

set_option autoImplicit false

/-- A positive number `numerator / denominator`, and the same for the ends of the interval of reals
that round to it. The ends belong to the interval if `closed`. -/
structure Interval where
  numerator : Nat
  low : Nat
  high : Nat
  denominator : Nat
  closed : Bool
  deriving Repr

def intervalOfBits (bits : Nat) : Interval :=
  let fraction := bits % powerOfTwo 52
  let exponent := bits / powerOfTwo 52 % powerOfTwo 11
  let mantissa := if exponent = 0 then fraction else powerOfTwo 52 + fraction
  let power := max exponent 1
  -- the value is `mantissa * 2 ^ (power - 1075)`; in quarters of that unit the ends are whole
  let below := if fraction = 0 && 1 < exponent then 1 else 2
  let scale := powerOfTwo power
  { numerator := 4 * mantissa * scale
    low := (4 * mantissa - below) * scale
    high := (4 * mantissa + 2) * scale
    denominator := 4 * powerOfTwo 1075
    closed := mantissa % 2 == 0 }

def Interval.holds (interval : Interval) (digits : Nat) (exponent : Int) : Bool :=
  let (point, unit) :=
    if 0 ≤ exponent then (digits * powerOfTen exponent.toNat * interval.denominator, 1)
    else (digits * interval.denominator, powerOfTen (-exponent).toNat)
  if interval.closed then interval.low * unit ≤ point && point ≤ interval.high * unit
  else interval.low * unit < point && point < interval.high * unit

/-- The number of whole multiples of `10 ^ exponent` in the value, and whether the rest is more than
half of one. -/
def Interval.floorAt (interval : Interval) (exponent : Int) : Nat × Bool :=
  let (top, bottom) :=
    if 0 ≤ exponent then (interval.numerator, interval.denominator * powerOfTen exponent.toNat)
    else (interval.numerator * powerOfTen (-exponent).toNat, interval.denominator)
  (top / bottom, bottom < 2 * (top % bottom))

/-- The exponent `k` with `10 ^ (k - 1) ≤ value < 10 ^ k`, looked for downwards. -/
def Interval.magnitude (interval : Interval) : Nat → Int → Int
  | 0, exponent => exponent
  | tries + 1, exponent =>
      if (interval.floorAt (exponent - 1)).1 = 0 then interval.magnitude tries (exponent - 1)
      else exponent

/-- The shortest digits in the interval on the grids of `count` to 17 digits. -/
def Interval.shortestFrom (interval : Interval) (magnitude : Int) : Nat → Nat → Nat × Int
  | 0, count => ((interval.floorAt (magnitude - count)).1, magnitude - count)
  | tries + 1, count =>
      let exponent := magnitude - count
      let (floor, above) := interval.floorAt exponent
      let lower := interval.holds floor exponent
      let upper := interval.holds (floor + 1) exponent
      if lower && (!above || !upper) then (floor, exponent)
      else if upper then (floor + 1, exponent)
      else interval.shortestFrom magnitude tries (count + 1)

def shortest (bits : Nat) : Nat × Int :=
  let interval := intervalOfBits bits
  interval.shortestFrom (interval.magnitude 640 310) 17 1

def positional (digits : Nat) (exponent : Int) : String :=
  let text := Nat.toDigits 10 digits
  if 0 ≤ exponent then String.ofList (text ++ List.replicate exponent.toNat '0')
  else
    let places := (-exponent).toNat
    let padded := List.replicate (places + 1 - text.length) '0' ++ text
    let whole := padded.take (padded.length - places)
    let fraction := (padded.drop (padded.length - places)).reverse.dropWhile (· == '0')
    if fraction.isEmpty then String.ofList whole
    else String.ofList (whole ++ '.' :: fraction.reverse)

/-- The float as a reader writes it: the shortest digits that read back, in positional notation. -/
def ofFloat (float : Float) : String :=
  let bits := float.toBits.toNat
  let sign := if bits / powerOfTwo 63 = 1 then "-" else ""
  let magnitude := bits % powerOfTwo 63
  if float.isNaN then "NaN"
  else if float.isInf then sign ++ "inf"
  else if magnitude = 0 then sign ++ "0"
  else
    let (digits, exponent) := shortest magnitude
    sign ++ positional digits exponent

end ObjectShape.Decimal
