import ObjectShape.Json.Number

/-!
# Reading JSON texts

A reader takes one piece of JSON off the front of the characters and returns what follows it. A
field that is named twice keeps its first place and takes its last value.
-/

namespace ObjectShape.Json

set_option autoImplicit false

/-- Arrays and objects may lie in each other at most one less than this deep. -/
def depthLimit : Nat := 128

def isSpace (c : Char) : Bool :=
  c == ' ' || c == '\n' || c == '\t' || c == '\r'

def skipSpace (chars : List Char) : List Char :=
  chars.dropWhile isSpace

def readWord : List Char → List Char → Except ReadFault (List Char)
  | [], chars => .ok chars
  | _ :: _, [] => .error .ended
  | expected :: later, c :: rest =>
      if c = expected then readWord later rest else .error .malformed

/-- The four hexadecimal digits of an escape. A text that ends within four bytes ends too early. -/
def readHex (chars : List Char) : Except ReadFault (Nat × List Char) :=
  if (String.ofList (chars.take 4)).utf8ByteSize < 4 then .error .ended
  else if (chars.take 4).all Text.isHex then .ok (Text.numberOf 16 (chars.take 4), chars.drop 4)
  else .error .malformed

def isLeading (unit : Nat) : Bool := 0xD800 ≤ unit && unit ≤ 0xDBFF

def isTrailing (unit : Nat) : Bool := 0xDC00 ≤ unit && unit ≤ 0xDFFF

/-- The character of an escape after its letter `u`. A leading surrogate needs a trailing one after
it, and a trailing one never stands alone. -/
def readUnicode (chars : List Char) : Except ReadFault (Char × List Char) := do
  let (unit, rest) ← readHex chars
  if isTrailing unit then throw .malformed
  if !isLeading unit then return (Char.ofNat unit, rest)
  match rest with
  | '\\' :: 'u' :: rest =>
      let (second, rest) ← readHex rest
      if isTrailing second then
        return (Char.ofNat (0x10000 + (unit - 0xD800) * 0x400 + (second - 0xDC00)), rest)
      throw .malformed
  | [] => throw .ended
  | ['\\'] => throw .ended
  | _ => throw .malformed

def readEscape : List Char → Except ReadFault (Char × List Char)
  | [] => .error .ended
  | '"' :: rest => .ok ('"', rest)
  | '\\' :: rest => .ok ('\\', rest)
  | '/' :: rest => .ok ('/', rest)
  | 'b' :: rest => .ok ('\x08', rest)
  | 'f' :: rest => .ok ('\x0c', rest)
  | 'n' :: rest => .ok ('\n', rest)
  | 'r' :: rest => .ok ('\r', rest)
  | 't' :: rest => .ok ('\t', rest)
  | 'u' :: rest => readUnicode rest
  | _ :: _ => .error .malformed

/-- The characters of a string after its opening quote, in reverse before `done`. -/
def readChars : Nat → List Char → List Char → Except ReadFault (String × List Char)
  | 0, _, _ => .error .malformed
  | _ + 1, _, [] => .error .ended
  | _ + 1, done, '"' :: rest => .ok (String.ofList done.reverse, rest)
  | fuel + 1, done, '\\' :: rest => do
      let (c, rest) ← readEscape rest
      readChars fuel (c :: done) rest
  | fuel + 1, done, c :: rest =>
      if c.toNat < 0x20 then .error .malformed else readChars fuel (c :: done) rest

def readString (chars : List Char) : Except ReadFault (String × List Char) :=
  readChars (chars.length + 1) [] chars

def readKey : List Char → Except ReadFault (String × List Char)
  | [] => .error .ended
  | '"' :: rest => do
      let (key, rest) ← readString rest
      match skipSpace rest with
      | ':' :: rest => return (key, rest)
      | [] => throw .ended
      | _ => throw .malformed
  | _ :: _ => .error .malformed

mutual

/-- One piece of data, with at most `depth` levels of arrays and objects. -/
def readValue : Nat → Nat → List Char → Except ReadFault (Json × List Char)
  | 0, _, _ => .error .malformed
  | fuel + 1, depth, chars =>
      match skipSpace chars with
      | [] => .error .ended
      | 'n' :: rest => do return (.null, ← readWord "ull".toList rest)
      | 't' :: rest => do return (.bool true, ← readWord "rue".toList rest)
      | 'f' :: rest => do return (.bool false, ← readWord "alse".toList rest)
      | '"' :: rest => do
          let (text, rest) ← readString rest
          return (.string text, rest)
      | '-' :: rest => readNumber true rest
      | '[' :: rest => do
          if depth = 0 then throw .malformed
          match skipSpace rest with
          | ']' :: rest => return (.array [], rest)
          | rest =>
              let (items, rest) ← readItems fuel (depth - 1) rest
              return (.array items, rest)
      | '\x7b' :: rest => do
          if depth = 0 then throw .malformed
          match skipSpace rest with
          | '\x7d' :: rest => return (.object [], rest)
          | rest =>
              let (fields, rest) ← readFields fuel (depth - 1) rest
              return (.object (Entries.ofList fields), rest)
      | c :: rest => if c.isDigit then readNumber false (c :: rest) else .error .malformed
termination_by structural fuel => fuel

def readItems : Nat → Nat → List Char → Except ReadFault (List Json × List Char)
  | 0, _, _ => .error .malformed
  | fuel + 1, depth, chars => do
      let (item, rest) ← readValue fuel depth chars
      match skipSpace rest with
      | [] => throw .ended
      | ']' :: rest => return ([item], rest)
      | ',' :: rest =>
          let (items, rest) ← readItems fuel depth rest
          return (item :: items, rest)
      | _ => throw .malformed
termination_by structural fuel => fuel

def readFields : Nat → Nat → List Char → Except ReadFault (List (String × Json) × List Char)
  | 0, _, _ => .error .malformed
  | fuel + 1, depth, chars => do
      let (key, rest) ← readKey (skipSpace chars)
      let (value, rest) ← readValue fuel depth rest
      match skipSpace rest with
      | [] => throw .ended
      | '\x7d' :: rest => return ([(key, value)], rest)
      | ',' :: rest =>
          let (fields, rest) ← readFields fuel depth rest
          return ((key, value) :: fields, rest)
      | _ => throw .malformed
termination_by structural fuel => fuel

end

def read (text : String) : Except ReadFault Json := do
  let chars := text.toList
  let (json, rest) ← readValue (2 * chars.length + 2) (depthLimit - 1) chars
  if (skipSpace rest).isEmpty then return json else throw .malformed

end ObjectShape.Json
