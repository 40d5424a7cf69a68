import ObjectShape.DateText.Recognition
import ObjectShape.Proofs.DateText.Reading

/-!
# ISO texts

A month, a day, or a day and a time in the shapes of ISO 8601. Such a text starts with four digits and
a dash, and so all readers refuse it but those that expect exactly this: the patterns that begin with
the year, each of which fits one shape of the rest, and the internet timestamps.
-/

namespace ObjectShape.DateText

set_option autoImplicit false

structure IsoDay where
  year : Numeral 4
  month : Numeral 2
  day : Numeral 2

/-- The seconds, with a fraction of any number of digits. -/
structure IsoSeconds where
  second : Numeral 2
  fraction : Option (Σ count, Numeral (count + 1))

structure IsoClock where
  hour : Numeral 2
  minute : Numeral 2
  seconds : Option IsoSeconds

inductive IsoText where
  | monthOnly (year : Numeral 4) (month : Numeral 2)
  | dayOnly (day : IsoDay)
  /-- A day and a time, in universal time or without a zone. -/
  | moment (day : IsoDay) (clock : IsoClock) (universal : Bool)

def IsoDay.chars (day : IsoDay) : List Char :=
  day.year.chars ++ '-' :: (day.month.chars ++ '-' :: day.day.chars)

def IsoSeconds.chars (seconds : IsoSeconds) : List Char :=
  seconds.second.chars ++
    match seconds.fraction with
    | none => []
    | some fraction => '.' :: fraction.2.chars

def IsoClock.chars (clock : IsoClock) : List Char :=
  clock.hour.chars ++ ':' :: (clock.minute.chars ++
    match clock.seconds with
    | none => []
    | some seconds => ':' :: seconds.chars)

def IsoText.chars : IsoText → List Char
  | .monthOnly year month => year.chars ++ '-' :: month.chars
  | .dayOnly day => day.chars
  | .moment day clock universal =>
      day.chars ++ 'T' :: (clock.chars ++ if universal then ['Z'] else [])

def IsoDay.stamp (day : IsoDay) : Stamp :=
  { year := day.year.value, month := day.month.value, day := day.day.value }

def IsoClock.stamp (day : IsoDay) (clock : IsoClock) : Stamp :=
  { day.stamp with
    hour := clock.hour.value
    minute := clock.minute.value
    second := (clock.seconds.map fun seconds => seconds.second.value).getD 0 }

theorem signed_year_of_numeral (year : Numeral 4) (rest : List Char) :
    signedYear (year.chars ++ rest) = some ((year.value : Int), rest) := by
  have read := digits_of_numeral year (show 1 ≤ 4 by decide) rest
  obtain ⟨first, later, shape, digit⟩ := numeral_starts year
  have minus : first ≠ '-' := Text.ne_of_digit digit (by decide)
  have plus : first ≠ '+' := Text.ne_of_digit digit (by decide)
  rw [shape, List.cons_append] at read ⊢
  simp [signedYear, minus, plus, read]

theorem padded_number_of_numeral (numeral : Numeral 2) (rest : List Char) :
    paddedNumber (numeral.chars ++ rest) = some (numeral.value, rest) := by
  rw [paddedNumber, drop_blanks_of_numeral]
  exact digits_of_numeral numeral (by decide) rest

/-- A pattern that begins with the year goes on behind the day. -/
theorem read_pattern_behind_day (day : IsoDay) (tail : List Item) (rest : List Char) :
    readPattern (yearFirst '-' ++ tail) {} (day.chars ++ rest) = readPattern tail day.stamp rest := by
  simp [yearFirst, readPattern, readItem, IsoDay.chars, drop_blanks_of_numeral,
    signed_year_of_numeral, padded_number_of_numeral, mark_self, IsoDay.stamp]

/-- A pattern that begins with the year wants a day behind the month. -/
theorem read_pattern_of_month (year : Numeral 4) (month : Numeral 2) (tail : List Item) :
    readPattern (yearFirst '-' ++ tail) {} (year.chars ++ '-' :: month.chars) = none := by
  have padded := padded_number_of_numeral month []
  rw [List.append_nil] at padded
  simp [yearFirst, readPattern, readItem, drop_blanks_of_numeral, signed_year_of_numeral, padded,
    mark]

theorem year_starts (year : Numeral 4) (rest : List Char) :
    ∃ first later, year.chars ++ rest = first :: later ∧ first.isDigit = true := by
  obtain ⟨first, later, shape, digit⟩ := numeral_starts year
  exact ⟨first, later ++ rest, by rw [shape, List.cons_append], digit⟩

/-- Two digits are taken off a year of four. -/
theorem digits_of_year (year : Numeral 4) (rest : List Char) :
    ∃ number first later, digits 1 2 (year.chars ++ rest) = some (number, first :: later) ∧
      first.isDigit = true := by
  obtain ⟨chars, length, digit⟩ := year
  have back : (chars.drop 2).length = 2 := by simp [length]
  obtain ⟨first, later, shape, starts⟩ := numeral_starts
    ⟨chars.drop 2, back, fun c member => digit c (List.mem_of_mem_drop member)⟩
  have front : (chars.take 2).length = 2 := by simp [length]
  have read := digits_of_numeral
    ⟨chars.take 2, front, fun c member => digit c (List.mem_of_mem_take member)⟩
    (show 1 ≤ 2 by decide) (chars.drop 2 ++ rest)
  rw [← List.append_assoc, List.take_append_drop] at read
  dsimp only at shape
  rw [shape] at read
  exact ⟨_, first, later ++ rest, read, starts⟩

section Refused

variable (year : Numeral 4) (rest : List Char) (tail : List Item)

theorem read_pattern_of_name {item : Item}
    (name : item = .weekdayName ∨ item = .monthName ∨ item = .fullMonthName) :
    readPattern (item :: tail) {} (year.chars ++ rest) = none := by
  obtain ⟨first, later, shape, digit⟩ := year_starts year rest
  rcases name with rfl | rfl | rfl <;>
    simp [readPattern, readItem, shape, weekday_name_of_digit digit, month_name_of_digit digit,
      full_month_name_of_digit digit]

theorem read_pattern_of_month_first :
    readPattern (.month :: .mark '/' :: tail) {} (year.chars ++ rest) = none := by
  obtain ⟨number, first, later, read, digit⟩ := digits_of_year year rest
  simp [readPattern, readItem, paddedNumber, drop_blanks_of_numeral, read,
    mark_of_digit (show '/'.isDigit = false by decide) digit]

theorem read_pattern_of_day_first :
    readPattern (.day :: .blank :: .monthName :: tail) {} (year.chars ++ rest) = none := by
  obtain ⟨number, first, later, read, digit⟩ := digits_of_year year rest
  have visible : Text.dropBlanks (first :: later) = first :: later :=
    Text.drop_blanks_of_head (by simpa using Text.is_blank_of_digit digit)
  simp [readPattern, readItem, paddedNumber, drop_blanks_of_numeral, read, visible,
    month_name_of_digit digit]

theorem read_pattern_of_slashes :
    readPattern (yearFirst '/') {} (year.chars ++ '-' :: rest) = none := by
  simp [yearFirst, readPattern, readItem, drop_blanks_of_numeral, signed_year_of_numeral, mark]

/-- Of the patterns for days only the one with dashes may fit. -/
theorem is_day_text_eq :
    isDayText (year.chars ++ '-' :: rest) =
      (readPattern (yearFirst '-') {} (year.chars ++ '-' :: rest)).any Stamp.isDay := by
  simp [isDayText, dayPatterns, read_pattern_of_slashes, read_pattern_of_month_first,
    read_pattern_of_day_first, read_pattern_of_name]

/-- Of the patterns with an offset only those that begin with the year may fit. -/
theorem is_zoned_text_eq :
    isZonedText (year.chars ++ '-' :: rest) = localPatterns.any fun pattern =>
      (readPattern (pattern ++ [.offset]) {} (year.chars ++ '-' :: rest)).any Stamp.isInstant := by
  simp [isZonedText, zonedPatterns, localPatterns, read_pattern_of_name]

/-- A year is no day of a month, which starts the date of a message. -/
theorem mail_refuses : Mail.accepts (year.chars ++ rest) = false := by
  obtain ⟨first, later, shape, digit⟩ := year_starts year rest
  have noWeekday : Mail.weekday (year.chars ++ rest) = some (none, year.chars ++ rest) := by
    rw [shape, Mail.weekday, weekday_name_of_digit digit]
  obtain ⟨number, second, behind, read, next⟩ := digits_of_year year rest
  have noBlank : blanks (second :: behind) = none := by
    simp [blanks, Text.is_blank_of_digit next]
  simp [Mail.accepts, Mail.read, drop_blanks_of_numeral, noWeekday, read, noBlank]

theorem is_year_refuses : isYear (year.chars ++ '-' :: rest) = false := by
  simp [isYear]

end Refused

section Clocks

/-- What follows the time continues neither the minutes nor the seconds. -/
def EndsClock (rest : List Char) : Prop :=
  ∀ c ∈ rest.head?, c.isDigit = false ∧ c ≠ '.' ∧ c ≠ ':'

theorem ends_clock_nil : EndsClock [] := by
  simp [EndsClock]

theorem ends_clock_cons_iff {c : Char} {rest : List Char} :
    EndsClock (c :: rest) ↔ c.isDigit = false ∧ c ≠ '.' ∧ c ≠ ':' := by
  simp [EndsClock]

theorem mark_of_ends {rest : List Char} (ends : EndsClock rest) :
    mark '.' rest = none ∧ mark ':' rest = none := by
  cases rest with
  | nil => exact ⟨rfl, rfl⟩
  | cons c later =>
      obtain ⟨_, noPoint, noColon⟩ := ends c rfl
      simp [mark, noPoint, noColon]

theorem fraction_of_numeral {count : Nat} (numeral : Numeral (count + 1)) {rest : List Char}
    (ends : EndsClock rest) : DateText.fraction (numeral.chars ++ rest) = some rest := by
  have enough : 1 ≤ numeral.chars.length := by rw [numeral.length_eq]; omega
  have short : numeral.chars.length ≤ (numeral.chars ++ rest).length := by simp
  have read := digits_append numeral.digits enough short (.inr fun c head => (ends c head).1)
  rw [DateText.fraction, longDigits, read]
  rfl

theorem read_fraction_of_seconds (seconds : IsoSeconds) (tail : List Item) (stamp : Stamp)
    {rest : List Char} (ends : EndsClock rest) :
    readPattern (.second :: .fraction :: tail) stamp (seconds.chars ++ rest) =
      readPattern tail { stamp with second := seconds.second.value } rest := by
  obtain ⟨second, fraction⟩ := seconds
  cases fraction with
  | none =>
      simp [readPattern, readItem, IsoSeconds.chars, padded_number_of_numeral, mark_of_ends ends]
  | some fraction =>
      simp [readPattern, readItem, IsoSeconds.chars, padded_number_of_numeral, mark_self,
        fraction_of_numeral fraction.2 ends]

theorem read_hour_and_minute (hour minute : Numeral 2) (tail : List Item) (stamp : Stamp)
    (rest : List Char) :
    readPattern (hourAndMinute ++ tail) stamp (hour.chars ++ ':' :: (minute.chars ++ rest)) =
      readPattern tail { stamp with hour := hour.value, minute := minute.value } rest := by
  simp [hourAndMinute, readPattern, readItem, padded_number_of_numeral, mark_self]

theorem read_pattern_behind_letter (tail : List Item) (stamp : Stamp) (rest : List Char) :
    readPattern ([.mark 'T'] ++ tail) stamp ('T' :: rest) = readPattern tail stamp rest := by
  simp [readPattern, readItem, mark_self]

theorem read_pattern_of_blank (tail : List Item) (stamp : Stamp) (rest : List Char) :
    readPattern ([.blank] ++ (hourAndMinute ++ tail)) stamp ('T' :: rest) = none := by
  have visible : Text.dropBlanks ('T' :: rest) = 'T' :: rest :=
    Text.drop_blanks_of_head (by simp; decide)
  have noNumber : digits 1 2 ('T' :: rest) = none := digits_of_no_digit (by decide) (by simp)
  simp [hourAndMinute, readPattern, readItem, paddedNumber, visible, noNumber]

/-- Behind a day and the letter `T`, the time is read by the one pattern of its shape, and the rest
of the pattern says whether the rest of the text fits. -/
theorem local_patterns_of_moment (day : IsoDay) (clock : IsoClock) {rest : List Char}
    (ends : EndsClock rest) {zone : List Item}
    (refuses : ∀ stamp later, readPattern zone stamp (':' :: later) = none) (good : Stamp → Bool) :
    (localPatterns.any fun pattern =>
        (readPattern (pattern ++ zone) {} (day.chars ++ 'T' :: (clock.chars ++ rest))).any good) =
      (readPattern zone (clock.stamp day) rest).any good := by
  obtain ⟨hour, minute, seconds⟩ := clock
  simp only [localPatterns, timeOfDay, List.any_cons, List.any_nil, List.append_assoc,
    read_pattern_behind_day, read_pattern_behind_letter, read_pattern_of_blank, Option.any_none,
    Bool.or_false]
  cases seconds with
  | none =>
      have noSeconds : ∀ tail stamp, readPattern (.mark ':' :: tail) stamp rest = none := by
        intro tail stamp
        simp [readPattern, readItem, mark_of_ends ends]
      simp [IsoClock.chars, read_hour_and_minute, noSeconds, IsoClock.stamp, IsoDay.stamp]
  | some seconds =>
      have colon : ∀ tail stamp later,
          readPattern (.mark ':' :: tail) stamp (':' :: later) = readPattern tail stamp later := by
        intro tail stamp later
        simp [readPattern, readItem, mark_self]
      simp [IsoClock.chars, read_hour_and_minute, colon, refuses, read_fraction_of_seconds _ _ _ ends,
        IsoClock.stamp]

theorem is_local_text_of_moment (day : IsoDay) (clock : IsoClock) (universal : Bool) :
    isLocalText (IsoText.moment day clock universal).chars =
      (!universal && (clock.stamp day).isLocal) := by
  have ends : EndsClock (if universal then ['Z'] else []) := by
    cases universal with
    | false => exact ends_clock_nil
    | true => exact ends_clock_cons_iff.mpr (by decide)
  have refuses : ∀ stamp later, readPattern [] stamp (':' :: later) = none := fun _ _ => rfl
  have patterns := local_patterns_of_moment day clock ends refuses Stamp.isLocal
  simp only [List.append_nil] at patterns
  rw [isLocalText, IsoText.chars, patterns]
  cases universal <;> simp [readPattern]

theorem is_zoned_text_of_moment (day : IsoDay) (clock : IsoClock) (universal : Bool) :
    isZonedText (day.chars ++ 'T' :: (clock.chars ++ if universal then "+0000".toList else [])) =
      (universal && (clock.stamp day).isInstant) := by
  have ends : EndsClock (if universal then "+0000".toList else []) := by
    cases universal with
    | false => exact ends_clock_nil
    | true => exact ends_clock_cons_iff.mpr (by decide)
  have refuses : ∀ stamp later, readPattern [.offset] stamp (':' :: later) = none := by
    intro stamp later
    have visible : Text.dropBlanks (':' :: later) = ':' :: later :=
      Text.drop_blanks_of_head (by simp; decide)
    simp [readPattern, readItem, visible, offset, offsetSign]
  have patterns := local_patterns_of_moment day clock ends refuses Stamp.isInstant
  have front : day.chars ++ 'T' :: (clock.chars ++ if universal then "+0000".toList else []) =
      day.year.chars ++ '-' :: (day.month.chars ++ '-' :: (day.day.chars ++
        'T' :: (clock.chars ++ if universal then "+0000".toList else []))) := by
    simp [IsoDay.chars]
  rw [front, is_zoned_text_eq, ← front, patterns]
  cases universal with
  | false => rfl
  | true => rfl

theorem internet_of_seconds (day : IsoDay) (hour minute : Numeral 2) (seconds : IsoSeconds)
    {rest : List Char} (ends : EndsClock rest) :
    Internet.read
        (day.chars ++ 'T' :: (hour.chars ++ ':' :: (minute.chars ++ ':' :: (seconds.chars ++ rest)))) =
      (Internet.zone rest).map fun (offset, rest) =>
        ({ (IsoClock.mk hour minute (some seconds)).stamp day with offset }, rest) := by
  obtain ⟨second, fraction⟩ := seconds
  have behind : Internet.secondFraction
      ((match fraction with
        | none => []
        | some fraction => '.' :: fraction.2.chars) ++ rest) = some rest := by
    cases fraction with
    | none => simp [Internet.secondFraction, mark_of_ends ends]
    | some fraction =>
        simp [Internet.secondFraction, mark_self, fraction_of_numeral fraction.2 ends]
  cases zone : Internet.zone rest <;>
    simp [Internet.read, IsoDay.chars, IsoSeconds.chars, digits_of_numeral, mark_self,
      Internet.dayEnd, behind, zone, IsoClock.stamp, IsoDay.stamp]

theorem internet_of_moment (day : IsoDay) (clock : IsoClock) (universal : Bool) :
    Internet.accepts (IsoText.moment day clock universal).chars =
      (clock.seconds.isSome && universal && (clock.stamp day).isInstant) := by
  obtain ⟨hour, minute, seconds⟩ := clock
  cases seconds with
  | none =>
      cases universal <;>
        simp [Internet.accepts, Internet.read, IsoText.chars, IsoDay.chars, IsoClock.chars,
          digits_of_numeral, digits_of_last_numeral, mark, Internet.dayEnd]
  | some seconds =>
      cases universal with
      | false =>
          have read := internet_of_seconds day hour minute seconds ends_clock_nil
          rw [List.append_nil] at read
          simp [Internet.accepts, IsoText.chars, IsoClock.chars, read, Internet.zone, offset,
            offsetSign]
      | true =>
          have ends : EndsClock ['Z'] := ends_clock_cons_iff.mpr (by decide)
          have read := internet_of_seconds day hour minute seconds ends
          simp [Internet.accepts, IsoText.chars, IsoClock.chars, read, Internet.zone]
          rfl

theorem internet_of_day (day : IsoDay) : Internet.accepts day.chars = false := by
  simp [Internet.accepts, Internet.read, IsoDay.chars, digits_of_numeral, digits_of_last_numeral,
    mark_self, Internet.dayEnd]

theorem internet_of_month (year : Numeral 4) (month : Numeral 2) :
    Internet.accepts (year.chars ++ '-' :: month.chars) = false := by
  simp [Internet.accepts, Internet.read, digits_of_numeral, digits_of_last_numeral, mark]

end Clocks

end ObjectShape.DateText
