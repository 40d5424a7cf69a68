import ObjectShape.DateText.Stamp
import ObjectShape.DateText.Reading

/-!
# Dates of messages

The dates of RFC 2822, with the older forms it still allows: short years, named zones, and comments
in parentheses at the end.
-/

namespace ObjectShape.DateText.Mail

set_option autoImplicit false

/-- A weekday may open the date; a comma follows it directly. -/
def weekday (chars : List Char) : Option (Option Nat × List Char) :=
  match weekdayName chars with
  | none => some (none, chars)
  | some (weekday, rest) => (mark ',' rest).map fun rest => (some weekday, rest)

/-- A year of two digits lies between 1950 and 2049, and one of three counts from 1900. -/
def year (chars : List Char) : Option (Nat × List Char) :=
  (longDigits 2 chars).map fun (value, rest) =>
    let length := chars.length - rest.length
    let full :=
      if length = 2 then (if value ≤ 49 then value + 2000 else value + 1900)
      else if length = 3 then value + 1900
      else value
    (full, rest)

def seconds (chars : List Char) : Option (Nat × List Char) :=
  match mark ':' (Text.dropBlanks chars) with
  | none => some (0, chars)
  | some rest => digits 2 2 rest

/-- The hours that a zone's name stands for; a single letter other than `J` stands for none. -/
def namedZone (name : List Char) : Option Int :=
  match String.ofList (name.map Char.toLower) with
  | "gmt" | "ut" | "z" => some 0
  | "edt" => some (-4)
  | "est" | "cdt" => some (-5)
  | "cst" | "mdt" => some (-6)
  | "mst" | "pdt" => some (-7)
  | "pst" => some (-8)
  | "j" => none
  | _ => if name.length = 1 then some 0 else none

def zone (chars : List Char) : Option (Int × List Char) :=
  match chars.takeWhile Char.isAlpha with
  | [] => offset false some chars
  | name => (namedZone name).map fun hours => (3600 * hours, chars.drop name.length)

/-- What follows a comment, whose opening parenthesis was just read inside `depth` others. A
backslash keeps the next character from counting. -/
def afterComment : Nat → List Char → Option (List Char)
  | _, [] => none
  | _, ['\\'] => none
  | depth, '\\' :: _ :: rest => afterComment depth rest
  | depth, '(' :: rest => afterComment (depth + 1) rest
  | 0, ')' :: rest => some rest
  | depth + 1, ')' :: rest => afterComment depth rest
  | depth, _ :: rest => afterComment depth rest

theorem length_after_comment {depth : Nat} {chars rest : List Char}
    (closed : afterComment depth chars = some rest) : rest.length < chars.length := by
  fun_induction afterComment depth chars with
  | case1 => simp at closed
  | case2 => simp at closed
  | case3 depth c chars ih =>
      have shorter := ih closed
      simp only [List.length_cons]
      omega
  | case4 depth chars ih => have shorter := ih closed; simp only [List.length_cons]; omega
  | case5 chars =>
      have same : chars = rest := by simpa using closed
      simp [same]
  | case6 depth chars ih => have shorter := ih closed; simp only [List.length_cons]; omega
  | case7 depth c chars _ _ _ _ _ ih =>
      have shorter := ih closed; simp only [List.length_cons]; omega

theorem length_drop_blanks (chars : List Char) :
    (Text.dropBlanks chars).length ≤ chars.length :=
  (List.dropWhile_sublist _).length_le

def dropComments (chars : List Char) : List Char :=
  match _opened : Text.dropBlanks chars with
  | '(' :: inside =>
      match _closed : afterComment 0 inside with
      | some rest => dropComments rest
      | none => chars
  | _ => chars
termination_by chars.length
decreasing_by
  have shorter := length_after_comment _closed
  have bound := length_drop_blanks chars
  rw [_opened] at bound
  simp only [List.length_cons] at bound
  omega

def read (chars : List Char) : Option (Stamp × List Char) := do
  let (weekday, rest) ← weekday (Text.dropBlanks chars)
  let (day, rest) ← digits 1 2 (Text.dropBlanks rest)
  let rest ← blanks rest
  let (month, rest) ← monthName rest
  let rest ← blanks rest
  let (year, rest) ← year rest
  let rest ← blanks rest
  let (hour, rest) ← digits 2 2 rest
  let rest ← mark ':' (Text.dropBlanks rest)
  let (minute, rest) ← digits 2 2 (Text.dropBlanks rest)
  let (second, rest) ← seconds rest
  let rest ← blanks rest
  let (offset, rest) ← zone rest
  return ({ year, month, day, weekday, hour, minute, second, offset }, dropComments rest)

/-- Whether the whole text is the date of a message at an existing instant. -/
def accepts (chars : List Char) : Bool :=
  (read chars).any fun (stamp, rest) => rest.isEmpty && stamp.isInstant

end ObjectShape.DateText.Mail
