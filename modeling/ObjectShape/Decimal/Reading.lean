import ObjectShape.Decimal.Powers
import ObjectShape.Text.Digits

/-!
# Reading decimals

The float nearest to a decimal, and the spellings of numbers that environment texts may use.
-/

namespace ObjectShape.Decimal

set_option autoImplicit false

/-- The float nearest to the digits times a power of ten. Decimals that are too large are infinite,
and those that are too small are zero, before any power is computed. -/
def nearest (digits : List Char) (exponent : Int) : Float :=
  let significant := digits.dropWhile (· == '0')
  let magnitude := exponent + significant.length
  if significant.isEmpty || magnitude < -400 then 0.0
  else if 400 < magnitude then 1.0 / 0.0
  else
    let mantissa := Text.decimalValue significant
    Float.ofScientific mantissa (exponent < 0) exponent.natAbs

def signed (negative : Bool) (float : Float) : Float :=
  if negative then -float else float

def takeSign : List Char → Bool × List Char
  | '+' :: rest => (false, rest)
  | '-' :: rest => (true, rest)
  | chars => (false, chars)

def integer? (chars : List Char) : Option Int :=
  let (negative, digits) := takeSign chars
  if digits.isEmpty || !digits.all Char.isDigit then none
  else
    let magnitude : Int := Text.decimalValue digits
    some (if negative then -magnitude else magnitude)

def exponent? : List Char → Option Int
  | [] => some 0
  | letter :: rest => if letter == 'e' || letter == 'E' then integer? rest else none

/-- A whole text that spells a float: digits with an optional point and an optional exponent, or one
of the words for infinity and for no number. -/
def float? (chars : List Char) : Option Float :=
  let (negative, rest) := takeSign chars
  match String.ofList (rest.map Char.toLower) with
  | "inf" | "infinity" => some (signed negative (1.0 / 0.0))
  | "nan" => some (signed negative (0.0 / 0.0))
  | _ =>
      let (whole, rest) := Text.spanDigits rest
      let (fraction, rest) :=
        match rest with
        | '.' :: rest => Text.spanDigits rest
        | rest => ([], rest)
      if whole.isEmpty && fraction.isEmpty then none
      else (exponent? rest).map fun exponent =>
        signed negative (nearest (whole ++ fraction) (exponent - fraction.length))

def fits64 (number : Int) : Bool :=
  let bound : Int := powerOfTwo 63
  0 ≤ number + bound && number < bound

end ObjectShape.Decimal
