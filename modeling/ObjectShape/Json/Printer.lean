import ObjectShape.Decimal.Shortest
import ObjectShape.Json.Basic
import ObjectShape.Text.Digits

/-!
# Printing JSON

Data as text to be read: every item and field on a line of its own, two spaces deeper than what it
belongs to.
-/

namespace ObjectShape.Json

set_option autoImplicit false

/-- A character inside quotes. Only what has to be escaped is escaped. -/
def quoteChar (c : Char) : List Char :=
  match c with
  | '"' => ['\\', '"']
  | '\\' => ['\\', '\\']
  | '\x08' => ['\\', 'b']
  | '\x0c' => ['\\', 'f']
  | '\n' => ['\\', 'n']
  | '\r' => ['\\', 'r']
  | '\t' => ['\\', 't']
  | c => if c.toNat < 0x20 then '\\' :: 'u' :: (Text.hex 4 c.toNat).toList else [c]

def quote (text : String) : String :=
  "\"" ++ String.ofList (text.toList.flatMap quoteChar) ++ "\""

def newLine (depth : Nat) : String :=
  "\n" ++ String.ofList (List.replicate (2 * depth) ' ')

def block (opening closing : String) (depth : Nat) (lines : List String) : String :=
  if lines.isEmpty then opening ++ closing
  else
    opening ++ newLine (depth + 1) ++ String.intercalate ("," ++ newLine (depth + 1)) lines ++
      newLine depth ++ closing

mutual

/-- The text of data that stands at a depth. Numbers that JSON has no text for are null. -/
def print (depth : Nat) : Json → String
  | .null => "null"
  | .bool flag => if flag then "true" else "false"
  | .integer number => toString number
  | .float number =>
      if number.isNaN || number.isInf then "null" else Decimal.ofFloat number
  | .string text => quote text
  | .array items => block "[" "]" depth (printItems (depth + 1) items)
  | .object fields => block "\x7b" "\x7d" depth (printFields (depth + 1) fields)
termination_by structural json => json

def printItems (depth : Nat) : List Json → List String
  | [] => []
  | item :: rest => print depth item :: printItems depth rest
termination_by structural items => items

def printFields (depth : Nat) : List (String × Json) → List String
  | [] => []
  | (key, item) :: rest =>
      (quote key ++ ": " ++ print depth item) :: printFields depth rest
termination_by structural fields => fields

end

def pretty (json : Json) : String :=
  print 0 json

end ObjectShape.Json
