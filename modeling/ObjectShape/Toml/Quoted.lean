import ObjectShape.Text.Digits

/-!
# TOML strings

Reading the four kinds of quoted strings, and choosing one of them to write a text in: basic strings
where nothing needs an escape, else literal ones, else the ones over several lines.
-/

namespace ObjectShape.Toml

set_option autoImplicit false

def isPlain (c : Char) : Bool :=
  c == '\t' || (0x20 ≤ c.toNat && c.toNat != 0x7F)

def isBlank (c : Char) : Bool :=
  c == ' ' || c == '\t'

def skipBlanks (chars : List Char) : List Char :=
  chars.dropWhile isBlank

def lineEnd : List Char → Option (List Char)
  | '\n' :: rest => some rest
  | '\r' :: '\n' :: rest => some rest
  | _ => none

def codePoint (count : Nat) (chars : List Char) : Option (Char × List Char) :=
  let digits := chars.take count
  let code := Text.numberOf 16 digits
  if digits.length = count && digits.all Text.isHex && code.isValidChar then
    some (Char.ofNat code, chars.drop count)
  else none

def escaped : List Char → Option (Char × List Char)
  | 'b' :: rest => some ('\x08', rest)
  | 't' :: rest => some ('\t', rest)
  | 'n' :: rest => some ('\n', rest)
  | 'f' :: rest => some ('\x0c', rest)
  | 'r' :: rest => some ('\r', rest)
  | '"' :: rest => some ('"', rest)
  | '\\' :: rest => some ('\\', rest)
  | 'u' :: rest => codePoint 4 rest
  | 'U' :: rest => codePoint 8 rest
  | _ => none

/-- Takes white space and ends of lines away, the first end of a line being due. -/
def joinedLine (chars : List Char) : Option (List Char) :=
  (lineEnd (skipBlanks chars)).map fun rest =>
    rest.dropWhile fun c => isBlank c || c == '\n' || c == '\r'

/-- A run of the delimiter in a string over several lines. One or two of them belong to the text,
and three end it, with at most two more before them. -/
def delimiterRun (delimiter : Char) (chars : List Char) : Nat × List Char × Bool :=
  let run := (chars.takeWhile (· == delimiter)).length
  if run < 3 then (run, chars.drop run, false)
  else (min (run - 3) 2, chars.drop (min run 5), true)

/-- The rest of a string that opened with `delimiter`. Escapes stand only in double quotes, and ends
of lines only in strings over several lines. -/
def quotedRest (delimiter : Char) (lines : Bool) :
    Nat → List Char → List Char → Option (String × List Char)
  | 0, _, _ => none
  | _ + 1, _, [] => none
  | fuel + 1, done, c :: rest =>
      if c = delimiter then
        if lines then
          match delimiterRun delimiter (c :: rest) with
          | (extra, rest, closed) =>
              let done := List.replicate extra delimiter ++ done
              if closed then some (String.ofList done.reverse, rest)
              else quotedRest delimiter lines fuel done rest
        else some (String.ofList done.reverse, rest)
      else if c = '\\' && delimiter = '"' then
        match if lines then joinedLine rest else none with
        | some rest => quotedRest delimiter lines fuel done rest
        | none => do
            let (c, rest) ← escaped rest
            quotedRest delimiter lines fuel (c :: done) rest
      else if isPlain c then quotedRest delimiter lines fuel (c :: done) rest
      else if lines then do
        let rest ← lineEnd (c :: rest)
        quotedRest delimiter lines fuel ('\n' :: done) rest
      else none

def shortString (delimiter : Char) (chars : List Char) : Option (String × List Char) :=
  quotedRest delimiter false (chars.length + 1) [] chars

/-- A string at the front. An end of line directly after three opening quotes is no part of it. -/
def readString : List Char → Option (String × List Char)
  | '"' :: '"' :: '"' :: rest =>
      quotedRest '"' true (rest.length + 1) [] ((lineEnd rest).getD rest)
  | '\'' :: '\'' :: '\'' :: rest =>
      quotedRest '\'' true (rest.length + 1) [] ((lineEnd rest).getD rest)
  | '"' :: rest => shortString '"' rest
  | '\'' :: rest => shortString '\'' rest
  | _ => none

def longestRun (wanted : Char) (chars : List Char) : Nat :=
  (chars.foldl
    (fun (longest, run) c =>
      if c = wanted then (max longest (run + 1), run + 1) else (longest, 0))
    ((0, 0) : Nat × Nat)).1

def needsEscape (c : Char) : Bool :=
  !isPlain c && c != '\n'

/-- A text in double quotes. In a string over several lines ends of lines and up to two quotes in a
row stand for themselves. -/
def escapeFrom (lines : Bool) : Nat → List Char → List Char
  | _, [] => []
  | run, c :: rest =>
      if c = '"' then
        if lines && run < 2 then c :: escapeFrom lines (run + 1) rest
        else '\\' :: '"' :: escapeFrom lines 0 rest
      else
        let written : List Char :=
          match c with
          | '\x08' => ['\\', 'b']
          | '\t' => ['\\', 't']
          | '\n' => if lines then ['\n'] else ['\\', 'n']
          | '\x0c' => ['\\', 'f']
          | '\r' => ['\\', 'r']
          | '\\' => ['\\', '\\']
          | c => if needsEscape c then '\\' :: 'u' :: (Text.hex 4 c.toNat).toUpper.toList else [c]
        written ++ escapeFrom lines 0 rest

def quote (text : String) : String :=
  let chars := text.toList
  let lines := chars.contains '\n'
  let control := chars.any needsEscape
  let backslash := chars.contains '\\'
  let start := if lines then "\n" else ""
  let basic := String.ofList (escapeFrom false 0 chars)
  let basicLines := start ++ String.ofList (escapeFrom true 0 chars)
  if !control && !backslash && !chars.contains '"' && !lines then "\"" ++ basic ++ "\""
  else if !control && !chars.contains '\'' && !lines then "'" ++ text ++ "'"
  else if !control && !backslash && longestRun '"' chars ≤ 2 then
    "\"\"\"" ++ basicLines ++ "\"\"\""
  else if !control && longestRun '\'' chars ≤ 2 then "'''" ++ start ++ text ++ "'''"
  else if lines then "\"\"\"" ++ basicLines ++ "\"\"\""
  else "\"" ++ basic ++ "\""

end ObjectShape.Toml
