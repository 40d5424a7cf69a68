/-!
# Digits

The numbers that digits write, and the digits that write a number.
-/

namespace ObjectShape.Text

set_option autoImplicit false

def hexValue? (c : Char) : Option Nat :=
  if '0' ≤ c && c ≤ '9' then some (c.toNat - '0'.toNat)
  else if 'a' ≤ c && c ≤ 'f' then some (c.toNat - 'a'.toNat + 10)
  else if 'A' ≤ c && c ≤ 'F' then some (c.toNat - 'A'.toNat + 10)
  else none

def isHex (c : Char) : Bool :=
  (hexValue? c).isSome

/-- The number that digits write in the base. Characters that are no digits count as zero. -/
def numberOf (base : Nat) (digits : List Char) : Nat :=
  digits.foldl (fun total digit => base * total + (hexValue? digit).getD 0) 0

def decimalValue (digits : List Char) : Nat :=
  numberOf 10 digits

def hex (width number : Nat) : String :=
  let digits := Nat.toDigits 16 number
  String.ofList (List.replicate (width - digits.length) '0' ++ digits)

def spanDigits (chars : List Char) : List Char × List Char :=
  chars.span Char.isDigit

end ObjectShape.Text
