import ObjectShape.DateText.Stamp
import ObjectShape.DateText.Reading

/-!
# Date patterns

A pattern is a list of items, each of which takes its part of the text. White space in a pattern
takes any amount of white space, also none, and numbers skip white space before them.
-/

namespace ObjectShape.DateText

set_option autoImplicit false

inductive Item where
  | year
  | month
  | day
  | hour
  | minute
  | second
  /-- A fraction of a second, or nothing. -/
  | fraction
  | weekdayName
  | monthName
  /-- A month by its full name or its three letters. -/
  | fullMonthName
  /-- A numeric offset from universal time. -/
  | offset
  | mark (expected : Char)
  | blank
  deriving DecidableEq, Repr

/-- A year: up to four digits, or a sign and digits of any number. -/
def signedYear : List Char → Option (Int × List Char)
  | '-' :: rest => (longDigits 1 rest).map fun (year, rest) => (-(year : Int), rest)
  | '+' :: rest => (longDigits 1 rest).map fun (year, rest) => ((year : Int), rest)
  | chars => (digits 1 4 chars).map fun (year, rest) => ((year : Int), rest)

def paddedNumber (chars : List Char) : Option (Nat × List Char) :=
  digits 1 2 (Text.dropBlanks chars)

/-- Takes the item's part off the front and writes it into the stamp. -/
def readItem (item : Item) (stamp : Stamp) (chars : List Char) : Option (Stamp × List Char) :=
  match item with
  | .year =>
      (signedYear (Text.dropBlanks chars)).map fun (year, rest) => ({ stamp with year }, rest)
  | .month => (paddedNumber chars).map fun (month, rest) => ({ stamp with month }, rest)
  | .day => (paddedNumber chars).map fun (day, rest) => ({ stamp with day }, rest)
  | .hour => (paddedNumber chars).map fun (hour, rest) => ({ stamp with hour }, rest)
  | .minute => (paddedNumber chars).map fun (minute, rest) => ({ stamp with minute }, rest)
  | .second => (paddedNumber chars).map fun (second, rest) => ({ stamp with second }, rest)
  | .fraction =>
      match mark '.' chars with
      | none => some (stamp, chars)
      | some rest => (DateText.fraction rest).map fun rest => (stamp, rest)
  | .weekdayName =>
      (DateText.weekdayName chars).map fun (weekday, rest) =>
        ({ stamp with weekday := some weekday }, rest)
  | .monthName => (DateText.monthName chars).map fun (month, rest) => ({ stamp with month }, rest)
  | .fullMonthName =>
      (DateText.fullMonthName chars).map fun (month, rest) => ({ stamp with month }, rest)
  | .offset =>
      let separators := List.dropWhile fun c => c == ':' || Text.isBlank c
      (DateText.offset true (some ∘ separators) (Text.dropBlanks chars)).map fun (offset, rest) =>
        ({ stamp with offset }, rest)
  | .mark expected => (mark expected chars).map fun rest => (stamp, rest)
  | .blank => some (stamp, Text.dropBlanks chars)

def readPattern : List Item → Stamp → List Char → Option Stamp
  | [], stamp, chars => if chars.isEmpty then some stamp else none
  | item :: rest, stamp, chars => do
      let (stamp, chars) ← readItem item stamp chars
      readPattern rest stamp chars

def yearFirst (between : Char) : List Item :=
  [.year, .mark between, .month, .mark between, .day]

def hourAndMinute : List Item := [.hour, .mark ':', .minute]

def timeOfDay : List Item := hourAndMinute ++ [.mark ':', .second]

def dayPatterns : List (List Item) :=
  [ yearFirst '-',
    yearFirst '/',
    [.month, .mark '/', .day, .mark '/', .year],
    [.fullMonthName, .blank, .day, .mark ',', .blank, .year],
    [.monthName, .blank, .day, .mark ',', .blank, .year],
    [.monthName, .blank, .day, .blank, .year],
    [.weekdayName, .blank, .monthName, .blank, .day, .blank, .year],
    [.day, .blank, .monthName, .blank, .year] ]

/-- A day and a time, with the mark `T` or white space between them. -/
def localPatterns : List (List Item) :=
  [ yearFirst '-' ++ [.mark 'T'] ++ timeOfDay ++ [.fraction],
    yearFirst '-' ++ [.mark 'T'] ++ hourAndMinute,
    yearFirst '-' ++ [.blank] ++ timeOfDay ++ [.fraction],
    yearFirst '-' ++ [.blank] ++ hourAndMinute ]

/-- A day and a time with an offset, the last one with the letters `GMT` before it. -/
def zonedPatterns : List (List Item) :=
  localPatterns.map (· ++ [.offset]) ++
    [ [.weekdayName, .blank, .monthName, .blank, .day, .blank, .year, .blank] ++ timeOfDay ++
        [.blank, .mark 'G', .mark 'M', .mark 'T', .offset] ]

def isDayText (chars : List Char) : Bool :=
  dayPatterns.any fun pattern => (readPattern pattern {} chars).any Stamp.isDay

def isLocalText (chars : List Char) : Bool :=
  localPatterns.any fun pattern => (readPattern pattern {} chars).any Stamp.isLocal

def isZonedText (chars : List Char) : Bool :=
  zonedPatterns.any fun pattern => (readPattern pattern {} chars).any Stamp.isInstant

end ObjectShape.DateText
