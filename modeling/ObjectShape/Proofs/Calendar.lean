import Mathlib.Data.Int.Basic
import ObjectShape.Calendar

/-!
# Days of the calendar

A day exists by the rule of the proleptic Gregorian calendar: thirty days have four of the months,
thirty-one all others but the second, which has a twenty-ninth day in every fourth year, of the full
centuries only in every fourth. A day of a year of at most four digits is far from both ends of the
calendar.
-/

namespace ObjectShape.Calendar

set_option autoImplicit false

def IsLeapYear (year : Int) : Prop :=
  4 ∣ year ∧ (100 ∣ year → 400 ∣ year)

def HasDay (year : Int) (month day : Nat) : Prop :=
  1 ≤ month ∧ month ≤ 12 ∧ 1 ≤ day ∧
    if month = 2 then day ≤ 28 ∨ (day = 29 ∧ IsLeapYear year)
    else if month = 4 ∨ month = 6 ∨ month = 9 ∨ month = 11 then day ≤ 30
    else day ≤ 31

instance (year : Int) : Decidable (IsLeapYear year) :=
  inferInstanceAs (Decidable (_ ∧ _))

instance (year : Int) (month day : Nat) : Decidable (HasDay year month day) :=
  inferInstanceAs (Decidable (_ ∧ _ ∧ _ ∧ ite _ _ _))

theorem is_leap_iff (year : Int) : isLeap year = true ↔ IsLeapYear year := by
  simp only [isLeap, IsLeapYear, Bool.and_eq_true, Bool.or_eq_true, beq_iff_eq, bne_iff_ne]
  omega

theorem month_length_iff (year : Int) (month day : Nat) :
    1 ≤ day ∧ day ≤ monthLength year month ↔ HasDay year month day := by
  unfold HasDay
  match month with
  | 2 =>
      cases leap : isLeap year with
      | true =>
          have rule := (is_leap_iff year).mp leap
          simp [monthLength, leap, rule]
          omega
      | false =>
          have rule : ¬ IsLeapYear year := by
            rw [← is_leap_iff, leap]
            exact Bool.false_ne_true
          simp [monthLength, leap, rule]
  | 0 | 1 | 3 | 4 | 5 | 6 | 7 | 8 | 9 | 10 | 11 | 12 => simp [monthLength]; try omega
  | month + 13 => simp [monthLength]; omega

/-- Within the range of years, the days that exist are those of the rule. -/
theorem exists_iff (date : Day) (least : firstYear ≤ date.year) (most : date.year ≤ lastYear) :
    date.exists? = true ↔ HasDay date.year date.month date.day := by
  rw [← month_length_iff]
  simp [Day.exists?, least, most]

theorem month_length_le (year : Int) (month : Nat) : monthLength year month ≤ 31 := by
  unfold monthLength
  split <;> try omega
  split <;> omega

theorem earlier_months_le (year : Int) (count : Nat) :
    (List.range count).foldl (fun total month => total + monthLength year (month + 1)) 0 ≤
      31 * count := by
  induction count with
  | zero => simp
  | succ count ih =>
      have last := month_length_le year (count + 1)
      rw [List.range_succ, List.foldl_append, List.foldl_cons, List.foldl_nil]
      omega

/-- A day in a year of at most four digits stays in the calendar. -/
theorem can_stay {date : Day} (exist : date.exists? = true) (least : 0 ≤ date.year)
    (most : date.year ≤ 9999) : date.canMove 0 = true := by
  have range : firstYear ≤ date.year ∧ date.year ≤ lastYear := by
    unfold firstYear lastYear
    omega
  obtain ⟨_, short, _, few⟩ := (exists_iff date range.1 range.2).mp exist
  have day : date.day ≤ 31 := by
    split at few
    · omega
    · split at few <;> omega
  have months := earlier_months_le date.year (date.month - 1)
  have first : (Day.mk firstYear 1 1).number = -95746129 := by decide
  have last : (Day.mk lastYear 12 31).number = 95745399 := by decide
  simp only [Day.canMove, first, last, Bool.and_eq_true, decide_eq_true_eq]
  simp only [Day.number]
  omega

end ObjectShape.Calendar
