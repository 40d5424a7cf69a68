import ObjectShape.Calendar
import ObjectShape.Decimal.Reading
import ObjectShape.Toml.Data

/-!
# TOML numbers and dates

Readers that take a number, a date or a time off the front of the characters. A value starts with as
much as fits: a date before a float, and a float before a whole number.
-/

namespace ObjectShape.Toml

set_option autoImplicit false

def separatedDigits (isDigit : Char → Bool) : List Char → List Char × List Char
  | '_' :: c :: rest =>
      if isDigit c then
        let (digits, rest) := separatedDigits isDigit rest
        (c :: digits, rest)
      else ([], '_' :: c :: rest)
  | c :: rest =>
      if isDigit c then
        let (digits, rest) := separatedDigits isDigit rest
        (c :: digits, rest)
      else ([], c :: rest)
  | [] => ([], [])

/-- At least one digit, with separators only between digits. -/
def digitRun (isDigit : Char → Bool) : List Char → Option (List Char × List Char)
  | c :: rest =>
      if isDigit c then
        let (digits, rest) := separatedDigits isDigit rest
        some (c :: digits, rest)
      else none
  | [] => none

/-- The digits of a whole number, which start with a zero only if that is all. -/
def wholeDigits : List Char → Option (List Char × List Char)
  | '0' :: rest => some (['0'], rest)
  | chars => digitRun Char.isDigit chars

def based (base : Nat) (isDigit : Char → Bool) (chars : List Char) : Option (Data × List Char) := do
  let (digits, rest) ← digitRun isDigit chars
  let number := Text.numberOf base digits
  if Decimal.fits64 number then return (.integer number, rest) else none

def integer (chars : List Char) : Option (Data × List Char) :=
  match chars with
  | '0' :: 'x' :: rest => based 16 Text.isHex rest
  | '0' :: 'o' :: rest => based 8 (fun c => '0' ≤ c && c ≤ '7') rest
  | '0' :: 'b' :: rest => based 2 (fun c => c == '0' || c == '1') rest
  | _ => do
      let (negative, rest) := Decimal.takeSign chars
      let (digits, rest) ← wholeDigits rest
      let magnitude : Int := Text.decimalValue digits
      let number := if negative then -magnitude else magnitude
      if Decimal.fits64 number then return (.integer number, rest) else none

def exponent : List Char → Option (Int × List Char)
  | letter :: rest =>
      if letter == 'e' || letter == 'E' then do
        let (negative, rest) := Decimal.takeSign rest
        let (digits, rest) ← digitRun Char.isDigit rest
        let magnitude : Int := Text.decimalValue digits
        return (if negative then -magnitude else magnitude, rest)
      else none
  | [] => none

def fractionAndExponent : List Char → Option (List Char × Int × List Char)
  | '.' :: rest => do
      let (digits, rest) ← digitRun Char.isDigit rest
      match rest with
      | letter :: _ =>
          if letter == 'e' || letter == 'E' then
            let (power, rest) ← exponent rest
            return (digits, power, rest)
          else return (digits, 0, rest)
      | [] => return (digits, 0, rest)
  | chars => do
      let (power, rest) ← exponent chars
      return ([], power, rest)

def specialFloat : List Char → Option (Float × List Char)
  | 'i' :: 'n' :: 'f' :: rest => some (1.0 / 0.0, rest)
  | 'n' :: 'a' :: 'n' :: rest => some (0.0 / 0.0, rest)
  | _ => none

/-- A float. One that is too large to be finite is refused if it is positive. -/
def float (chars : List Char) : Option (Data × List Char) :=
  let (negative, rest) := Decimal.takeSign chars
  match specialFloat rest with
  | some (float, rest) => some (.float (Decimal.signed negative float), rest)
  | none => do
      let (whole, rest) ← wholeDigits rest
      let (fraction, power, rest) ← fractionAndExponent rest
      let float := Decimal.nearest (whole ++ fraction) (power - fraction.length)
      if float.isInf && !negative then none
      else return (.float (Decimal.signed negative float), rest)

def field (count least most : Nat) (chars : List Char) : Option (List Char × List Char) :=
  let digits := chars.take count
  let number := Text.decimalValue digits
  if digits.length = count && digits.all Char.isDigit && least ≤ number && number ≤ most then
    some (digits, chars.drop count)
  else none

def mark (expected : Char) : List Char → Option (List Char)
  | c :: rest => if c = expected then some rest else none
  | [] => none

def day (chars : List Char) : Option (List Char × List Char) := do
  let (year, rest) ← field 4 0 9999 chars
  let rest ← mark '-' rest
  let (month, rest) ← field 2 1 12 rest
  let rest ← mark '-' rest
  let length := Calendar.monthLength (Text.decimalValue year) (Text.decimalValue month)
  let (day, rest) ← field 2 1 length rest
  return (year ++ '-' :: month ++ '-' :: day, rest)

/-- The digits of a fraction of a second that are kept: nine of them, without zeros at the end. -/
def keptFraction (digits : List Char) : List Char :=
  let kept := ((digits.take 9).reverse.dropWhile (· == '0')).reverse
  if kept.isEmpty then [] else '.' :: kept

def time (chars : List Char) : Option (List Char × List Char) := do
  let (hour, rest) ← field 2 0 23 chars
  let rest ← mark ':' rest
  let (minute, rest) ← field 2 0 59 rest
  let rest ← mark ':' rest
  let (second, rest) ← field 2 0 60 rest
  let clock := hour ++ ':' :: minute ++ ':' :: second
  match rest with
  | '.' :: rest =>
      match Text.spanDigits rest with
      | ([], _) => none
      | (digits, rest) => return (clock ++ keptFraction digits, rest)
  | _ => return (clock, rest)

/-- The offset of a time: a letter `Z` or a sign, hours and minutes; none if neither is there. -/
def zone (chars : List Char) : Option (List Char × List Char) :=
  match chars with
  | 'Z' :: rest => some (['Z'], rest)
  | 'z' :: rest => some (['Z'], rest)
  | sign :: rest =>
      if sign == '+' || sign == '-' then do
        let (hour, rest) ← field 2 0 23 rest
        let rest ← mark ':' rest
        let (minute, rest) ← field 2 0 59 rest
        let nothing := Text.decimalValue hour == 0 && Text.decimalValue minute == 0
        let written := if nothing then '+' else sign
        return (written :: hour ++ ':' :: minute, rest)
      else some ([], chars)
  | [] => some ([], [])

def datetime (chars : List Char) : Option (Data × List Char) :=
  match day chars with
  | some (day, rest) =>
      let alone : Option (Data × List Char) := some (.datetime (String.ofList day), rest)
      match rest with
      | separator :: later =>
          if separator == 'T' || separator == 't' || separator == ' ' then
            match time later with
            | some (time, later) => do
                let (zone, later) ← zone later
                return (.datetime (String.ofList (day ++ 'T' :: time ++ zone)), later)
            | none => alone
          else alone
      | [] => alone
  | none => (time chars).map fun (time, rest) => (.datetime (String.ofList time), rest)

def numeric (chars : List Char) : Option (Data × List Char) :=
  datetime chars <|> float chars <|> integer chars

end ObjectShape.Toml
