import ObjectShape.DateText.Stamp
import ObjectShape.DateText.Reading

/-!
# Internet timestamps

The timestamps of RFC 3339: fixed columns, a letter `T` or a space between day and time, and an
offset with a colon or the letter `Z`.
-/

namespace ObjectShape.DateText.Internet

set_option autoImplicit false

/-- The letter `T` in either case, or a space. -/
def dayEnd : List Char → Option (List Char)
  | c :: rest => if c == 'T' || c == 't' || c == ' ' then some rest else none
  | [] => none

def secondFraction (chars : List Char) : Option (List Char) :=
  match mark '.' chars with
  | none => some chars
  | some rest => fraction rest

def zone : List Char → Option (Int × List Char)
  | 'Z' :: rest => some (0, rest)
  | 'z' :: rest => some (0, rest)
  | chars => offset true (mark ':') chars

def read (chars : List Char) : Option (Stamp × List Char) := do
  let (year, rest) ← digits 4 4 chars
  let rest ← mark '-' rest
  let (month, rest) ← digits 2 2 rest
  let rest ← mark '-' rest
  let (day, rest) ← digits 2 2 rest
  let rest ← dayEnd rest
  let (hour, rest) ← digits 2 2 rest
  let rest ← mark ':' rest
  let (minute, rest) ← digits 2 2 rest
  let rest ← mark ':' rest
  let (second, rest) ← digits 2 2 rest
  let rest ← secondFraction rest
  let (offset, rest) ← zone rest
  return ({ year, month, day, hour, minute, second, offset }, rest)

/-- Whether the whole text is a timestamp of an existing instant. -/
def accepts (chars : List Char) : Bool :=
  (read chars).any fun (stamp, rest) => rest.isEmpty && stamp.isInstant

end ObjectShape.DateText.Internet
