import ObjectShape.Decimal.Powers
import ObjectShape.Json.Fault
import ObjectShape.Text.Digits

/-!
# Numbers in JSON texts

The digits of a number are read into a significand of 64 bits, and the significand is scaled by a
power of ten. Digits that no longer fit are left out: before the point they only raise the exponent,
after it they change nothing.
-/

namespace ObjectShape.Json

set_option autoImplicit false

def maxSignificand : Nat := Decimal.powerOfTwo 64 - 1

/-- Adds digits to a significand as long as they fit. Returns how many did, and how many did not. -/
def absorb (significand : Nat) : List Char → Nat × Nat × Nat
  | [] => (significand, 0, 0)
  | digit :: rest =>
      let next := 10 * significand + (Text.hexValue? digit).getD 0
      if next ≤ maxSignificand then
        let (total, taken, left) := absorb next rest
        (total, taken + 1, left)
      else (significand, 0, rest.length + 1)

def scaleDown (float : Float) (exponent : Nat) : Float :=
  if exponent ≤ 308 then float / Float.ofScientific 1 false exponent
  else if float == 0.0 then float
  else scaleDown (float / 1e308) (exponent - 308)
termination_by exponent

def scale (significand : Nat) (exponent : Int) : Option Float :=
  let float := Float.ofNat significand
  if exponent < 0 then some (scaleDown float exponent.natAbs)
  else if exponent ≤ 308 then
    let scaled := float * Float.ofScientific 1 false exponent.natAbs
    if scaled.isInf then none else some scaled
  else if float == 0.0 then some float
  else none

def signed (negative : Bool) (float : Float) : Float :=
  if negative then -float else float

/-- The largest exponent that is read; greater ones are zero or out of range whatever they are. -/
def maxExponent : Nat := Decimal.powerOfTwo 31 - 1

def readExponent (negative : Bool) (significand : Nat) (start : Int) (chars : List Char) :
    Except ReadFault (Json × List Char) :=
  let (down, rest) :=
    match chars with
    | '+' :: rest => (false, rest)
    | '-' :: rest => (true, rest)
    | _ => (false, chars)
  match Text.spanDigits rest with
  | ([], []) => .error .ended
  | ([], _ :: _) => .error .malformed
  | (digits, rest) =>
      let exponent := Text.decimalValue digits
      if exponent ≤ maxExponent then
        match scale significand (start + if down then -(exponent : Int) else exponent) with
        | some scaled => .ok (.float (signed negative scaled), rest)
        | none => .error .malformed
      else if significand = 0 || down then .ok (.float (signed negative 0.0), rest)
      else .error .malformed

/-- Ends a number that has a fraction or digits left out, or reads its exponent. -/
def finishFloat (negative : Bool) (significand : Nat) (exponent : Int) (chars : List Char) :
    Except ReadFault (Json × List Char) :=
  match chars with
  | 'e' :: rest => readExponent negative significand exponent rest
  | 'E' :: rest => readExponent negative significand exponent rest
  | _ =>
      match scale significand exponent with
      | some scaled => .ok (.float (signed negative scaled), chars)
      | none => .error .malformed

/-- A whole number within 64 bits; minus zero and what does not fit is a float. -/
def wholeNumber (negative : Bool) (significand : Nat) : Json :=
  if !negative then .integer significand
  else if significand = 0 || Decimal.powerOfTwo 63 < significand then
    .float (-(Float.ofNat significand))
  else .integer (-(significand : Int))

def readNumber (negative : Bool) (chars : List Char) : Except ReadFault (Json × List Char) :=
  match Text.spanDigits chars with
  | ([], []) => .error .ended
  | ([], _ :: _) => .error .malformed
  | ('0' :: _ :: _, _) => .error .malformed
  | (digits, rest) =>
      let (significand, _, left) := absorb 0 digits
      match rest with
      | '.' :: rest =>
          match Text.spanDigits rest with
          | ([], []) => .error .ended
          | ([], _ :: _) => .error .malformed
          | (digits, rest) =>
              let (significand, taken, _) := absorb significand digits
              finishFloat negative significand ((left : Int) - taken) rest
      | 'e' :: rest => readExponent negative significand left rest
      | 'E' :: rest => readExponent negative significand left rest
      | _ =>
          if left = 0 then .ok (wholeNumber negative significand, rest)
          else finishFloat negative significand left rest

end ObjectShape.Json
