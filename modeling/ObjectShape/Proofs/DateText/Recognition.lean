import ObjectShape.Proofs.Calendar
import ObjectShape.Proofs.DateText.Iso
import ObjectShape.Value.Matching

/-!
# Which ISO texts are dates

A text is tried in many ways, and one success is enough. Of an ISO text all ways but those of its own
shape fail, and the remaining ones ask whether what the text says exists: the day in the calendar, the
time on the clock. So no impossible text is a date, and every possible one is.
-/

namespace ObjectShape.DateText

set_option autoImplicit false

theorem of_digit_chars_lt {chars : List Char} (digits : ∀ c ∈ chars, c.isDigit = true)
    (start : Nat) : Nat.ofDigitChars 10 chars start < (start + 1) * 10 ^ chars.length := by
  induction chars generalizing start with
  | nil => simp [Nat.ofDigitChars]
  | cons c rest ih =>
      have bounds := Text.digit_bounds (digits c List.mem_cons_self)
      have later : ∀ c ∈ rest, c.isDigit = true := fun c member => digits c (by simp [member])
      have below := ih later (10 * start + (c.toNat - '0'.toNat))
      have digit : c.toNat - '0'.toNat ≤ 9 := by
        change c.toNat - 48 ≤ 9
        omega
      calc Nat.ofDigitChars 10 (c :: rest) start
          = Nat.ofDigitChars 10 rest (10 * start + (c.toNat - '0'.toNat)) := rfl
        _ < (10 * start + (c.toNat - '0'.toNat) + 1) * 10 ^ rest.length := below
        _ ≤ (10 * (start + 1)) * 10 ^ rest.length := Nat.mul_le_mul_right _ (by omega)
        _ = (start + 1) * 10 ^ (c :: rest).length := by
          rw [List.length_cons, Nat.pow_succ]
          ac_rfl

theorem value_lt {count : Nat} (numeral : Numeral count) : numeral.value < 10 ^ count := by
  have below := of_digit_chars_lt numeral.digits 0
  rwa [numeral.length_eq, Nat.zero_add, Nat.one_mul] at below

theorem last_of_numeral {count : Nat} (front : List Char) (numeral : Numeral (count + 1)) :
    ∃ c, (front ++ numeral.chars).getLast? = some c ∧ c.isDigit = true := by
  obtain ⟨first, later, shape, _⟩ := numeral_starts numeral
  have filled : numeral.chars ≠ [] := by simp [shape]
  refine ⟨numeral.chars.getLast filled, ?_, numeral.digits _ (List.getLast_mem filled)⟩
  rw [List.getLast?_append, List.getLast?_eq_some_getLast filled]
  rfl

theorem last_of_clock (front : List Char) (clock : IsoClock) :
    ∃ c, (front ++ clock.chars).getLast? = some c ∧ c.isDigit = true := by
  obtain ⟨hour, minute, seconds⟩ := clock
  cases seconds with
  | none => simpa [IsoClock.chars] using last_of_numeral (front ++ (hour.chars ++ [':'])) minute
  | some seconds =>
      obtain ⟨second, fraction⟩ := seconds
      cases fraction with
      | none =>
          simpa [IsoClock.chars, IsoSeconds.chars] using
            last_of_numeral (front ++ (hour.chars ++ ':' :: (minute.chars ++ [':']))) second
      | some fraction =>
          simpa [IsoClock.chars, IsoSeconds.chars] using last_of_numeral
            (front ++ (hour.chars ++ ':' :: (minute.chars ++ ':' :: (second.chars ++ ['.']))))
            fraction.2

theorem numeric_zone_of_universal (front : List Char) :
    numericZone (front ++ ['Z']) = front ++ "+0000".toList := by
  simp [numericZone]

theorem numeric_zone_of_digit {chars : List Char} {last : Char}
    (ends : chars.getLast? = some last) (digit : last.isDigit = true) :
    numericZone chars = chars := by
  have noZone : last ≠ 'Z' := Text.ne_of_digit digit (by decide)
  have noName : last ≠ ')' := Text.ne_of_digit digit (by decide)
  unfold numericZone
  rw [ends]
  split
  · next same => exact absurd (Option.some.inj same) noZone
  · next same => exact absurd (Option.some.inj same) noName
  · rfl

def IsoDay.Exists (day : IsoDay) : Prop :=
  Calendar.HasDay day.year.value day.month.value day.day.value

/-- The time exists on the clock; a minute may end with a leap second. -/
def IsoClock.Exists (clock : IsoClock) : Prop :=
  clock.hour.value ≤ 23 ∧ clock.minute.value ≤ 59 ∧
    ∀ seconds ∈ clock.seconds, seconds.second.value ≤ 60

def IsoText.Possible : IsoText → Prop
  | .monthOnly _ month => 1 ≤ month.value ∧ month.value ≤ 12
  | .dayOnly day => day.Exists
  | .moment day clock _ => day.Exists ∧ clock.Exists

instance (day : IsoDay) : Decidable day.Exists :=
  inferInstanceAs (Decidable (Calendar.HasDay _ _ _))

instance (clock : IsoClock) : Decidable clock.Exists :=
  inferInstanceAs (Decidable (_ ∧ _ ∧ ∀ _ ∈ clock.seconds, _))

instance (iso : IsoText) : Decidable iso.Possible :=
  match iso with
  | .monthOnly _ _ => inferInstanceAs (Decidable (_ ∧ _))
  | .dayOnly day => inferInstanceAs (Decidable day.Exists)
  | .moment day clock _ => inferInstanceAs (Decidable (day.Exists ∧ clock.Exists))

theorem is_day_iff (day : IsoDay) : day.stamp.isDay = true ↔ day.Exists := by
  have bound := value_lt day.year
  have exist := Calendar.exists_iff day.stamp.date
    (show Calendar.firstYear ≤ (day.year.value : Int) by unfold Calendar.firstYear; omega)
    (show (day.year.value : Int) ≤ Calendar.lastYear by unfold Calendar.lastYear; omega)
  have noWeekday : day.stamp.isDay = day.stamp.date.exists? := by simp [Stamp.isDay, IsoDay.stamp]
  rw [noWeekday]
  exact exist

theorem is_time_iff (day : IsoDay) (clock : IsoClock) :
    (clock.stamp day).isTime = true ↔ clock.Exists := by
  have each : (clock.stamp day).isTime = true ↔
      (clock.stamp day).hour ≤ 23 ∧ (clock.stamp day).minute ≤ 59 ∧ (clock.stamp day).second ≤ 60 := by
    simp only [Stamp.isTime, Bool.and_eq_true, decide_eq_true_eq, and_assoc]
  rw [each]
  obtain ⟨hour, minute, seconds⟩ := clock
  cases seconds <;> simp [IsoClock.stamp, IsoClock.Exists]

theorem is_local_iff (day : IsoDay) (clock : IsoClock) :
    (clock.stamp day).isLocal = true ↔ day.Exists ∧ clock.Exists := by
  have sameDay : (clock.stamp day).isDay = day.stamp.isDay := rfl
  rw [Stamp.isLocal, Bool.and_eq_true, sameDay, is_day_iff, is_time_iff]

/-- In universal time a moment that exists is an instant: no offset moves it to another day. -/
theorem is_instant_iff (day : IsoDay) (clock : IsoClock) :
    (clock.stamp day).isInstant = true ↔ day.Exists ∧ clock.Exists := by
  rw [← is_local_iff]
  constructor
  · intro instant
    simp only [Stamp.isInstant, Bool.and_eq_true] at instant
    exact instant.1.1.1
  · intro isLocal
    obtain ⟨exist, time⟩ := (is_local_iff day clock).mp isLocal
    obtain ⟨hours, minutes, _⟩ := time
    have bound := value_lt day.year
    have known : (clock.stamp day).date.exists? = true := by
      have day := (is_day_iff day).mpr exist
      exact (Bool.and_eq_true_iff.mp day).1
    have stay := Calendar.can_stay known (Int.natCast_nonneg day.year.value)
      (show (day.year.value : Int) ≤ 9999 by omega)
    have sameDay : (((3600 * (clock.stamp day).hour + 60 * (clock.stamp day).minute +
        min (clock.stamp day).second 59 : Nat) : Int) - (clock.stamp day).offset) / 86400 = 0 := by
      have hour : (clock.stamp day).hour ≤ 23 := hours
      have minute : (clock.stamp day).minute ≤ 59 := minutes
      have offset : (clock.stamp day).offset = 0 := rfl
      omega
    rw [Stamp.isInstant, isLocal]
    dsimp only
    rw [sameDay, stay]
    rfl

def isReadable (chars : List Char) : Bool :=
  Internet.accepts chars || Mail.accepts chars || isYear chars || isMonth chars ||
    isZonedText (numericZone chars) || isLocalText chars || isDayText chars

section Shapes

variable (year : Numeral 4) (month : Numeral 2) (day : IsoDay) (clock : IsoClock)

theorem local_patterns_of_month (zone : List Item) (good : Stamp → Bool) :
    (localPatterns.any fun pattern =>
      (readPattern (pattern ++ zone) {} (year.chars ++ '-' :: month.chars)).any good) = false := by
  simp only [localPatterns, List.any_cons, List.any_nil, List.append_assoc, read_pattern_of_month,
    Option.any_none, Bool.or_false]

theorem local_patterns_of_day (zone : List Item) (good : Stamp → Bool) :
    (localPatterns.any fun pattern =>
      (readPattern (pattern ++ zone) {} day.chars).any good) = false := by
  have noLetter : ∀ tail stamp, readPattern ([.mark 'T'] ++ tail) stamp [] = none := fun _ _ => rfl
  have noHour : ∀ tail stamp, readPattern ([.blank] ++ (hourAndMinute ++ tail)) stamp [] = none :=
    fun _ _ => rfl
  have behind := fun tail => read_pattern_behind_day day tail []
  simp only [List.append_nil] at behind
  simp only [localPatterns, timeOfDay, List.any_cons, List.any_nil, List.append_assoc, behind,
    noLetter, noHour, Option.any_none, Bool.or_false]

theorem is_month_of_month :
    isMonth (year.chars ++ '-' :: month.chars) = decide (1 ≤ month.value ∧ month.value ≤ 12) := by
  have narrow : ∀ c ∈ year.chars ++ '-' :: month.chars, c.utf8Size = 1 := by
    intro c member
    rcases List.mem_append.mp member with digit | member
    · exact Text.utf8_size_of_digit (year.digits c digit)
    · rcases List.mem_cons.mp member with rfl | digit
      · rfl
      · exact Text.utf8_size_of_digit (month.digits c digit)
  have size : (String.ofList (year.chars ++ '-' :: month.chars)).utf8ByteSize = 7 := by
    rw [Text.byte_size_of_narrow narrow, List.length_append, List.length_cons, year.length_eq,
      month.length_eq]
  let first : IsoDay := ⟨year, month, ⟨['0', '1'], rfl, List.all_eq_true.mp rfl⟩⟩
  have read := read_pattern_behind_day first [] []
  have shape : first.chars = year.chars ++ '-' :: month.chars ++ ['-', '0', '1'] := by
    simp [first, IsoDay.chars]
  rw [List.append_nil, List.append_nil, shape] at read
  have exist : first.Exists ↔ 1 ≤ month.value ∧ month.value ≤ 12 := by
    have one : first.day.value = 1 := rfl
    simp [IsoDay.Exists, Calendar.HasDay, one, first]
  rw [isMonth, size, read, Bool.eq_iff_iff, decide_eq_true_iff, ← exist, ← is_day_iff]
  rfl

theorem is_month_of_day (rest : List Char) : isMonth (day.chars ++ rest) = false := by
  have read := read_pattern_behind_day day [] (rest ++ ['-', '0', '1'])
  have used : readPattern [] day.stamp (rest ++ ['-', '0', '1']) = none := by
    simp [readPattern]
  rw [List.append_nil, used] at read
  simp [isMonth, read]

theorem is_readable_month :
    isReadable (year.chars ++ '-' :: month.chars) =
      decide (1 ≤ month.value ∧ month.value ≤ 12) := by
  obtain ⟨last, ends, digit⟩ := last_of_numeral (year.chars ++ ['-']) month
  rw [List.append_assoc] at ends
  have zone := numeric_zone_of_digit ends digit
  have zoned := local_patterns_of_month year month [.offset] Stamp.isInstant
  have plain := local_patterns_of_month year month [] Stamp.isLocal
  have dashes := read_pattern_of_month year month []
  simp only [List.append_nil] at plain dashes
  simp only [List.singleton_append] at zone
  rw [isReadable, internet_of_month, mail_refuses, is_year_refuses, is_month_of_month, zone,
    is_zoned_text_eq, zoned, isLocalText, plain, is_day_text_eq, dashes]
  simp

theorem is_readable_day : isReadable day.chars = day.stamp.isDay := by
  obtain ⟨last, ends, digit⟩ :=
    last_of_numeral (day.year.chars ++ '-' :: (day.month.chars ++ ['-'])) day.day
  have front : day.chars = day.year.chars ++ '-' :: (day.month.chars ++ '-' :: day.day.chars) := rfl
  have zone : numericZone day.chars = day.chars :=
    numeric_zone_of_digit (by simpa [front] using ends) digit
  have month := is_month_of_day day []
  have zoned := local_patterns_of_day day [.offset] Stamp.isInstant
  have plain := local_patterns_of_day day [] Stamp.isLocal
  have dashes := read_pattern_behind_day day [] []
  simp only [List.append_nil] at month plain dashes
  rw [isReadable, internet_of_day, month, zone, isLocalText, plain, front, mail_refuses,
    is_year_refuses, is_zoned_text_eq, ← front, zoned, front, is_day_text_eq, ← front, dashes]
  simp [readPattern]

theorem is_readable_moment (universal : Bool) :
    isReadable (IsoText.moment day clock universal).chars =
      if universal then (clock.stamp day).isInstant else (clock.stamp day).isLocal := by
  have front : (IsoText.moment day clock universal).chars = day.year.chars ++ '-' ::
      (day.month.chars ++ '-' :: (day.day.chars ++
        'T' :: (clock.chars ++ if universal then ['Z'] else []))) := by
    simp [IsoText.chars, IsoDay.chars]
  have zone : numericZone (IsoText.moment day clock universal).chars =
      day.chars ++ 'T' :: (clock.chars ++ if universal then "+0000".toList else []) := by
    cases universal with
    | true =>
        simpa [IsoText.chars] using numeric_zone_of_universal (day.chars ++ 'T' :: clock.chars)
    | false =>
        obtain ⟨last, ends, digit⟩ := last_of_clock (day.chars ++ ['T']) clock
        have same := numeric_zone_of_digit ends digit
        simpa [IsoText.chars] using same
  have dashes := read_pattern_behind_day day []
    ('T' :: (clock.chars ++ if universal then ['Z'] else []))
  have month : isMonth (IsoText.moment day clock universal).chars = false :=
    is_month_of_day day ('T' :: (clock.chars ++ if universal then ['Z'] else []))
  have day' : isDayText (IsoText.moment day clock universal).chars = false := by
    rw [front, is_day_text_eq, ← front]
    simp only [List.append_nil] at dashes
    rw [IsoText.chars, dashes]
    rfl
  have mail : Mail.accepts (IsoText.moment day clock universal).chars = false := by
    rw [front, mail_refuses]
  have year : isYear (IsoText.moment day clock universal).chars = false := by
    rw [front, is_year_refuses]
  rw [isReadable, internet_of_moment, mail, year, month, zone, is_zoned_text_of_moment,
    is_local_text_of_moment, day']
  cases universal with
  | true => cases (clock.stamp day).isInstant <;> simp
  | false => simp

end Shapes

theorem is_readable_iff (iso : IsoText) : isReadable iso.chars = true ↔ iso.Possible := by
  cases iso with
  | monthOnly year month =>
      rw [IsoText.chars, is_readable_month, decide_eq_true_iff]
      rfl
  | dayOnly day =>
      rw [IsoText.chars, is_readable_day, is_day_iff]
      rfl
  | moment day clock universal =>
      rw [is_readable_moment]
      cases universal with
      | true => exact is_instant_iff day clock
      | false => exact is_local_iff day clock

theorem iso_starts (iso : IsoText) : ∃ first later, iso.chars = first :: later ∧ first.isDigit = true := by
  cases iso with
  | monthOnly year month => exact year_starts year _
  | dayOnly day => exact year_starts day.year _
  | moment day clock universal =>
      rw [IsoText.chars, IsoDay.chars, List.append_assoc]
      exact year_starts day.year _

theorem iso_ends (iso : IsoText) :
    ∃ last, iso.chars.getLast? = some last ∧ (last.isDigit = true ∨ last = 'Z') := by
  cases iso with
  | monthOnly year month =>
      obtain ⟨last, ends, digit⟩ := last_of_numeral (year.chars ++ ['-']) month
      exact ⟨last, by simpa [IsoText.chars] using ends, .inl digit⟩
  | dayOnly day =>
      obtain ⟨last, ends, digit⟩ :=
        last_of_numeral (day.year.chars ++ '-' :: (day.month.chars ++ ['-'])) day.day
      exact ⟨last, by simpa [IsoText.chars, IsoDay.chars] using ends, .inl digit⟩
  | moment day clock universal =>
      cases universal with
      | true =>
          have shape : (IsoText.moment day clock true).chars =
              day.chars ++ 'T' :: clock.chars ++ ['Z'] := by simp [IsoText.chars]
          exact ⟨'Z', by rw [shape, List.getLast?_concat], .inr rfl⟩
      | false =>
          obtain ⟨last, ends, digit⟩ := last_of_clock (day.chars ++ ['T']) clock
          exact ⟨last, by simpa [IsoText.chars] using ends, .inl digit⟩

/-- Whatever white space stands around it, an ISO text is a date exactly if what it says exists: the
month is one of the twelve, the month has the day, and the clock has the time. -/
theorem is_date_like_iff {φ : Type} (iso : IsoText) (before after : List Char)
    (blankBefore : ∀ c ∈ before, Text.isBlank c = true)
    (blankAfter : ∀ c ∈ after, Text.isBlank c = true) :
    (Value.string (String.ofList (before ++ iso.chars ++ after)) : Value φ).isDateLike = true ↔
      iso.Possible := by
  obtain ⟨first, later, starts, digit⟩ := iso_starts iso
  obtain ⟨last, ends, closing⟩ := iso_ends iso
  have filled : iso.chars ≠ [] := by simp [starts]
  have trimmed : Text.trim (before ++ iso.chars ++ after) = iso.chars := by
    apply Text.trim_append blankBefore blankAfter _ _ filled
    · intro c head
      rw [starts] at head
      obtain rfl := Option.some.inj head
      exact Text.is_blank_of_digit digit
    · intro c tail
      rw [ends] at tail
      obtain rfl := Option.some.inj tail
      rcases closing with digit | rfl
      · exact Text.is_blank_of_digit digit
      · decide
  have visible : iso.chars.isEmpty = false := by simp [filled]
  have recognized : isDate (String.ofList (before ++ iso.chars ++ after)) = isReadable iso.chars := by
    simp only [isDate, String.toList_ofList, trimmed, visible, Bool.not_false, Bool.true_and]
    rfl
  rw [Value.isDateLike, recognized, is_readable_iff]

/-- The twenty-ninth of February of a year, with a leap second at its end. -/
def leapSecondOf (year : Numeral 4) : IsoText :=
  .moment
    { year
      month := ⟨['0', '2'], rfl, List.all_eq_true.mp rfl⟩
      day := ⟨['2', '9'], rfl, List.all_eq_true.mp rfl⟩ }
    { hour := ⟨['2', '3'], rfl, List.all_eq_true.mp rfl⟩
      minute := ⟨['5', '9'], rfl, List.all_eq_true.mp rfl⟩
      seconds := some
        { second := ⟨['6', '0'], rfl, List.all_eq_true.mp rfl⟩
          fraction := some ⟨0, ⟨['5'], rfl, List.all_eq_true.mp rfl⟩⟩ } }
    true

theorem leap_seconds_date_like :
    (∀ c ∈ [' ', '\u2003'], Text.isBlank c = true) ∧ (∀ c ∈ ['\n'], Text.isBlank c = true) ∧
      (Value.string " \u20032024-02-29T23:59:60.5Z\n" : Value Empty).isDateLike = true ∧
      (Value.string " \u20032100-02-29T23:59:60.5Z\n" : Value Empty).isDateLike = false := by
  have before : ∀ c ∈ [' ', '\u2003'], Text.isBlank c = true := List.all_eq_true.mp (by decide)
  have after : ∀ c ∈ ['\n'], Text.isBlank c = true := List.all_eq_true.mp (by decide)
  refine ⟨before, after, ?_, ?_⟩
  · let leap : Numeral 4 := ⟨['2', '0', '2', '4'], rfl, List.all_eq_true.mp rfl⟩
    exact (is_date_like_iff (leapSecondOf leap) _ _ before after).mpr (by decide)
  · let common : Numeral 4 := ⟨['2', '1', '0', '0'], rfl, List.all_eq_true.mp rfl⟩
    rw [Bool.eq_false_iff]
    intro accepted
    exact absurd ((is_date_like_iff (leapSecondOf common) _ _ before after).mp accepted) (by decide)

end ObjectShape.DateText
