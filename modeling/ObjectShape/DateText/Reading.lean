import ObjectShape.Text.Blank
import ObjectShape.Text.Digits

/-!
# Reading the parts of a date text

Each reader takes its part from the front of the characters and returns what is left, or nothing if
the characters do not start with such a part.
-/

namespace ObjectShape.DateText

set_option autoImplicit false

def digits (least most : Nat) (chars : List Char) : Option (Nat × List Char) :=
  let taken := (chars.take most).takeWhile Char.isDigit
  if taken.length < least then none
  else some (Text.decimalValue taken, chars.drop taken.length)

def longDigits (least : Nat) (chars : List Char) : Option (Nat × List Char) :=
  digits least chars.length chars

def mark (expected : Char) : List Char → Option (List Char)
  | [] => none
  | c :: rest => if c = expected then some rest else none

def blanks : List Char → Option (List Char)
  | [] => none
  | c :: rest => if Text.isBlank c then some (Text.dropBlanks rest) else none

/-- A fraction of a second, whose value is of no interest: digits after the point. -/
def fraction (chars : List Char) : Option (List Char) :=
  (longDigits 1 chars).map Prod.snd

def word (expected : String) (chars : List Char) : Option (List Char) :=
  let length := expected.length
  if (chars.take length).map Char.toLower = expected.toList then some (chars.drop length) else none

/-- The place of the first of the words that stands at the front. -/
def oneOf (words : List String) (chars : List Char) : Option (Nat × List Char) :=
  words.zipIdx.findSome? fun (expected, index) =>
    (word expected chars).map fun rest => (index, rest)

def weekdayNames : List String :=
  ["sun", "mon", "tue", "wed", "thu", "fri", "sat"]

def monthNames : List String :=
  ["jan", "feb", "mar", "apr", "may", "jun", "jul", "aug", "sep", "oct", "nov", "dec"]

/-- What follows the first three letters of each month in its full name. -/
def monthEndings : List String :=
  ["uary", "ruary", "ch", "il", "", "e", "y", "ust", "tember", "ober", "ember", "ember"]

def weekdayName (chars : List Char) : Option (Nat × List Char) :=
  oneOf weekdayNames chars

def monthName (chars : List Char) : Option (Nat × List Char) :=
  (oneOf monthNames chars).map fun (index, rest) => (index + 1, rest)

def fullMonthName (chars : List Char) : Option (Nat × List Char) :=
  (oneOf monthNames chars).map fun (index, rest) =>
    (index + 1, (word (monthEndings.getD index "") rest).getD rest)

def twoDigits (highest : Char) : List Char → Option (Nat × List Char)
  | tens :: units :: rest =>
      if tens.isDigit && units.isDigit && tens ≤ highest then
        some (Text.decimalValue [tens, units], rest)
      else none
  | _ => none

/-- The sign of an offset: plus, minus, and the typographical minus where it is allowed. -/
def offsetSign (typographical : Bool) : List Char → Option (Int × List Char)
  | '+' :: rest => some (1, rest)
  | '-' :: rest => some (-1, rest)
  | '\u2212' :: rest => if typographical then some (-1, rest) else none
  | _ => none

/-- A numeric offset in seconds: a sign, two digits of hours, what `between` takes, and two digits
of minutes. -/
def offset (typographical : Bool) (between : List Char → Option (List Char)) (chars : List Char) :
    Option (Int × List Char) := do
  let (sign, rest) ← offsetSign typographical chars
  let (hours, rest) ← twoDigits '9' rest
  let rest ← between rest
  let (minutes, rest) ← twoDigits '5' rest
  return (sign * (3600 * hours + 60 * minutes : Nat), rest)

end ObjectShape.DateText
