import ObjectShape.DateText.Internet
import ObjectShape.DateText.Mail
import ObjectShape.DateText.Pattern

/-!
# Which texts are dates

A text is a date if it is an internet timestamp, the date of a message, a bare year or month, or
fits one of the patterns.
-/

namespace ObjectShape.DateText

set_option autoImplicit false

def isYear (chars : List Char) : Bool :=
  chars.length == 4 && chars.all Char.isDigit

/-- A year and a month: seven bytes that make a day when the first of the month is added. -/
def isMonth (chars : List Char) : Bool :=
  (String.ofList chars).utf8ByteSize == 7 &&
    (readPattern (yearFirst '-') {} (chars ++ ['-', '0', '1'])).any Stamp.isDay

def beforeParenthesis : List Char → Option (List Char)
  | ' ' :: '(' :: _ => some []
  | c :: rest => (beforeParenthesis rest).map (c :: ·)
  | [] => none

/-- The text with its zone as a numeric offset: a final `Z` is written out as zero, and a zone name
in parentheses at the end is left out. -/
def numericZone (chars : List Char) : List Char :=
  match chars.getLast? with
  | some 'Z' => chars.dropLast ++ "+0000".toList
  | some ')' => (beforeParenthesis chars).getD chars
  | _ => chars

/-- Whether the text, without white space around it, reads as a date. -/
def isDate (text : String) : Bool :=
  let chars := Text.trim text.toList
  !chars.isEmpty &&
    (Internet.accepts chars || Mail.accepts chars || isYear chars || isMonth chars ||
      isZonedText (numericZone chars) || isLocalText chars || isDayText chars)

end ObjectShape.DateText
