import Mathlib.Data.List.TakeWhile
import Mathlib.Data.String.Basic
import ObjectShape.DateText.Reading

/-!
# Taking numerals off the front

A numeral is a run of ASCII digits of known length. What a reader does with a text that starts with
one is said here for every text that follows, so that a pattern is read piece by piece. A digit is no
blank, no sign and no letter, which is why readers of other things refuse it.
-/

namespace ObjectShape

set_option autoImplicit false

namespace Text

theorem digit_bounds {c : Char} (digit : c.isDigit = true) : 48 ≤ c.toNat ∧ c.toNat ≤ 57 := by
  simpa [Char.isDigit, UInt32.le_iff_toNat_le] using digit

theorem ne_of_digit {c other : Char} (digit : c.isDigit = true) (noDigit : other.isDigit = false) :
    c ≠ other := by
  intro same
  rw [same, noDigit] at digit
  exact Bool.noConfusion digit

theorem is_blank_of_digit {c : Char} (digit : c.isDigit = true) : isBlank c = false := by
  have bounds := digit_bounds digit
  simp only [isBlank, Bool.or_eq_false_iff, Bool.and_eq_false_iff, decide_eq_false_iff_not,
    beq_eq_false_iff_ne]
  omega

theorem to_lower_of_digit {c : Char} (digit : c.isDigit = true) : c.toLower = c := by
  have bounds := digit_bounds digit
  unfold Char.toLower
  rw [dif_neg]
  intro upper
  have least := UInt32.le_iff_toNat_le.mp upper.1
  change 65 ≤ c.toNat at least
  omega

theorem utf8_size_of_digit {c : Char} (digit : c.isDigit = true) : c.utf8Size = 1 := by
  have bounds := digit_bounds digit
  unfold Char.utf8Size
  rw [if_pos]
  exact UInt32.le_iff_toNat_le.mpr (show c.toNat ≤ 127 by omega)

theorem byte_size_of_narrow {chars : List Char} (narrow : ∀ c ∈ chars, c.utf8Size = 1) :
    (String.ofList chars).utf8ByteSize = chars.length := by
  rw [String.utf8ByteSize_ofList]
  induction chars with
  | nil => rfl
  | cons c rest ih =>
      have later := ih fun other member => narrow other (List.mem_cons_of_mem _ member)
      rw [String.utf8Len, later, narrow c List.mem_cons_self, List.length_cons]

theorem drop_blanks_of_head {chars : List Char} (visible : ∀ c ∈ chars.head?, isBlank c = false) :
    dropBlanks chars = chars := by
  cases chars with
  | nil => rfl
  | cons c rest =>
      have head : isBlank c = false := visible c rfl
      simp [dropBlanks, head]

theorem drop_blanks_append {blanks : List Char} (blank : ∀ c ∈ blanks, isBlank c = true)
    (chars : List Char) : dropBlanks (blanks ++ chars) = dropBlanks chars :=
  List.dropWhile_append_of_pos blank

/-- White space around a text is cut off if the text itself neither starts nor ends with any. -/
theorem trim_append {before after chars : List Char}
    (blankBefore : ∀ c ∈ before, isBlank c = true) (blankAfter : ∀ c ∈ after, isBlank c = true)
    (starts : ∀ c ∈ chars.head?, isBlank c = false)
    (ends : ∀ c ∈ chars.getLast?, isBlank c = false) (filled : chars ≠ []) :
    trim (before ++ chars ++ after) = chars := by
  have starts' : ∀ c ∈ (chars ++ after).head?, isBlank c = false := by
    obtain ⟨first, rest, rfl⟩ := List.exists_cons_of_ne_nil filled
    exact starts
  have ends' : ∀ c ∈ chars.reverse.head?, isBlank c = false := by
    rw [List.head?_reverse]
    exact ends
  rw [trim, List.append_assoc, drop_blanks_append blankBefore, drop_blanks_of_head starts',
    List.reverse_append, drop_blanks_append (by simpa using blankAfter),
    drop_blanks_of_head ends', List.reverse_reverse]

theorem hex_value_of_digit {c : Char} (digit : c.isDigit = true) :
    hexValue? c = some (c.toNat - '0'.toNat) := by
  have bounds := digit_bounds digit
  have least : '0' ≤ c := UInt32.le_iff_toNat_le.mpr bounds.1
  have most : c ≤ '9' := UInt32.le_iff_toNat_le.mpr bounds.2
  simp [hexValue?, least, most]

/-- A run of digits writes the number that it is in base ten. -/
theorem decimal_value_eq {chars : List Char} (digits : ∀ c ∈ chars, c.isDigit = true) :
    decimalValue chars = Nat.ofDigitChars 10 chars 0 := by
  have step : ∀ total, chars.foldl (fun total digit => 10 * total + (hexValue? digit).getD 0) total =
      Nat.ofDigitChars 10 chars total := by
    induction chars with
    | nil => exact fun _ => rfl
    | cons c rest ih =>
        intro total
        have later : ∀ c ∈ rest, c.isDigit = true := fun c member => digits c (by simp [member])
        rw [List.foldl_cons, hex_value_of_digit (digits c List.mem_cons_self), ih later]
        rfl
  exact step 0

end Text

namespace DateText

/-- A run of so many ASCII digits. -/
structure Numeral (count : Nat) where
  chars : List Char
  length_eq : chars.length = count
  digits : ∀ c ∈ chars, c.isDigit = true

def Numeral.value {count : Nat} (numeral : Numeral count) : Nat :=
  Nat.ofDigitChars 10 numeral.chars 0

theorem digits_append {least most : Nat} {taken rest : List Char}
    (digit : ∀ c ∈ taken, c.isDigit = true) (enough : least ≤ taken.length)
    (short : taken.length ≤ most)
    (ended : taken.length = most ∨ ∀ c ∈ rest.head?, c.isDigit = false) :
    digits least most (taken ++ rest) = some (Nat.ofDigitChars 10 taken 0, rest) := by
  have run : ((taken ++ rest).take most).takeWhile Char.isDigit = taken := by
    have later : (rest.take (most - taken.length)).takeWhile Char.isDigit = [] := by
      rcases ended with full | ended
      · simp [full]
      · cases rest with
        | nil => simp
        | cons c rest =>
            have head : c.isDigit = false := ended c rfl
            cases most - taken.length <;> simp [head]
    rw [List.take_append, List.take_of_length_le short, List.takeWhile_append_of_pos digit, later,
      List.append_nil]
  simp only [digits, run, Text.decimal_value_eq digit, List.drop_left, Nat.not_lt.mpr enough, if_false]

theorem digits_of_numeral {least count : Nat} (numeral : Numeral count) (enough : least ≤ count)
    (rest : List Char) :
    digits least count (numeral.chars ++ rest) = some (numeral.value, rest) :=
  digits_append numeral.digits (by rw [numeral.length_eq]; exact enough)
    (Nat.le_of_eq numeral.length_eq) (.inl numeral.length_eq)

theorem digits_of_last_numeral {least count : Nat} (numeral : Numeral count)
    (enough : least ≤ count) : digits least count numeral.chars = some (numeral.value, []) := by
  have read := digits_of_numeral numeral enough []
  rwa [List.append_nil] at read

/-- No number stands where there is no digit. -/
theorem digits_of_no_digit {least most : Nat} (needed : 0 < least) {chars : List Char}
    (noDigit : ∀ c ∈ chars.head?, c.isDigit = false) : digits least most chars = none := by
  have none : (chars.take most).takeWhile Char.isDigit = [] := by
    cases chars with
    | nil => simp
    | cons c rest =>
        have head : c.isDigit = false := noDigit c rfl
        cases most <;> simp [head]
  simp [digits, none, needed]

theorem numeral_starts {count : Nat} (numeral : Numeral (count + 1)) :
    ∃ first later, numeral.chars = first :: later ∧ first.isDigit = true := by
  obtain ⟨chars, length_eq, digits⟩ := numeral
  cases chars with
  | nil => simp at length_eq
  | cons first later => exact ⟨first, later, rfl, digits first List.mem_cons_self⟩

theorem drop_blanks_of_numeral {count : Nat} (numeral : Numeral (count + 1)) (rest : List Char) :
    Text.dropBlanks (numeral.chars ++ rest) = numeral.chars ++ rest := by
  obtain ⟨first, later, shape, digit⟩ := numeral_starts numeral
  apply Text.drop_blanks_of_head
  intro c head
  rw [shape] at head
  obtain rfl := Option.some.inj head
  exact Text.is_blank_of_digit digit

theorem mark_self (expected : Char) (rest : List Char) :
    mark expected (expected :: rest) = some rest := by
  simp [mark]

theorem mark_of_digit {expected : Char} (noDigit : expected.isDigit = false) {c : Char}
    (digit : c.isDigit = true) (rest : List Char) : mark expected (c :: rest) = none := by
  simp [mark, Text.ne_of_digit digit noDigit]

def Worded (words : List String) : Prop :=
  ∀ expected ∈ words, expected.toList.head?.all Char.isDigit = false

instance (words : List String) : Decidable (Worded words) :=
  inferInstanceAs (Decidable (∀ _ ∈ _, _))

theorem word_of_digit {expected : String}
    (worded : expected.toList.head?.all Char.isDigit = false) {c : Char}
    (digit : c.isDigit = true) (rest : List Char) : word expected (c :: rest) = none := by
  cases shape : expected.toList with
  | nil => simp [shape] at worded
  | cons first later =>
      have noDigit : first.isDigit = false := by simpa [shape] using worded
      have length : expected.length = later.length + 1 := by
        rw [← String.length_toList, shape, List.length_cons]
      have different : ¬ c.toLower = first := by
        rw [Text.to_lower_of_digit digit]
        exact Text.ne_of_digit digit noDigit
      simp [word, length, shape, different]

theorem one_of_digit {words : List String} (worded : Worded words) {c : Char}
    (digit : c.isDigit = true) (rest : List Char) : oneOf words (c :: rest) = none := by
  rw [oneOf, List.findSome?_eq_none_iff]
  rintro ⟨expected, index⟩ member
  have first := worded expected (List.fst_mem_of_mem_zipIdx member)
  simp [word_of_digit first digit]

theorem weekday_name_of_digit {c : Char} (digit : c.isDigit = true) (rest : List Char) :
    weekdayName (c :: rest) = none :=
  one_of_digit (by decide) digit rest

theorem month_name_of_digit {c : Char} (digit : c.isDigit = true) (rest : List Char) :
    monthName (c :: rest) = none := by
  rw [monthName, one_of_digit (by decide) digit]
  rfl

theorem full_month_name_of_digit {c : Char} (digit : c.isDigit = true) (rest : List Char) :
    fullMonthName (c :: rest) = none := by
  rw [fullMonthName, one_of_digit (by decide) digit]
  rfl

end DateText

end ObjectShape
