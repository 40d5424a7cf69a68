import ObjectShape.Calendar

/-!
# What a date text says

The numbers read from a date text, and whether they name a point in time.
-/

namespace ObjectShape.DateText

set_option autoImplicit false

/-- The numbers of a date text. A text that leaves the time of day out means its start. -/
structure Stamp where
  year : Int := 0
  month : Nat := 0
  day : Nat := 0
  weekday : Option Nat := none
  hour : Nat := 0
  minute : Nat := 0
  second : Nat := 0
  /-- Seconds that the local time is ahead of universal time. -/
  offset : Int := 0
  deriving DecidableEq, Repr, Inhabited

namespace Stamp

def date (stamp : Stamp) : Calendar.Day :=
  { year := stamp.year, month := stamp.month, day := stamp.day }

/-- The day exists, and a weekday that was given is its weekday. -/
def isDay (stamp : Stamp) : Bool :=
  stamp.date.exists? && stamp.weekday.all fun given => stamp.date.weekday == given

/-- The time of day exists; a minute may end with a leap second. -/
def isTime (stamp : Stamp) : Bool :=
  stamp.hour ≤ 23 && stamp.minute ≤ 59 && stamp.second ≤ 60

def isLocal (stamp : Stamp) : Bool :=
  stamp.isDay && stamp.isTime

/-- The local time exists, is less than a day off universal time, and the universal time falls on a
day in range. -/
def isInstant (stamp : Stamp) : Bool :=
  stamp.isLocal && -86400 < stamp.offset && stamp.offset < 86400 &&
    let secondOfDay := 3600 * stamp.hour + 60 * stamp.minute + min stamp.second 59
    stamp.date.canMove (((secondOfDay : Int) - stamp.offset) / 86400)

end Stamp

end ObjectShape.DateText
