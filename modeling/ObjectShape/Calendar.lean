/-!
# The calendar

Days of the proleptic Gregorian calendar, over the range of years that dates may have. Weekdays and
months are numbers: Sunday is 0, January is 1.
-/

namespace ObjectShape.Calendar

set_option autoImplicit false

structure Day where
  year : Int
  month : Nat
  day : Nat
  deriving DecidableEq, Repr, Inhabited

def firstYear : Int := -262143

def lastYear : Int := 262142

def isLeap (year : Int) : Bool :=
  year % 4 == 0 && (year % 100 != 0 || year % 400 == 0)

def monthLength (year : Int) (month : Nat) : Nat :=
  match month with
  | 1 | 3 | 5 | 7 | 8 | 10 | 12 => 31
  | 4 | 6 | 9 | 11 => 30
  | 2 => if isLeap year then 29 else 28
  | _ => 0

namespace Day

def exists? (date : Day) : Bool :=
  firstYear ≤ date.year && date.year ≤ lastYear && 1 ≤ date.day &&
    date.day ≤ monthLength date.year date.month

/-- The number of the day, counted from 1 January of the year 1. -/
def number (date : Day) : Int :=
  let before := date.year - 1
  let earlierMonths := (List.range (date.month - 1)).foldl
    (fun total month => total + monthLength date.year (month + 1)) 0
  365 * before + before / 4 - before / 100 + before / 400 + (earlierMonths + date.day : Nat)

def weekday (date : Day) : Nat :=
  (date.number % 7).toNat

/-- Whether there is a day `offset` days later, or earlier if it is negative. -/
def canMove (date : Day) (offset : Int) : Bool :=
  let first : Day := { year := firstYear, month := 1, day := 1 }
  let last : Day := { year := lastYear, month := 12, day := 31 }
  first.number ≤ date.number + offset && date.number + offset ≤ last.number

end Day

end ObjectShape.Calendar
