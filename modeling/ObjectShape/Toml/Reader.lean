import ObjectShape.Toml.Quoted
import ObjectShape.Toml.Scalar

/-!
# Reading TOML documents
-/

namespace ObjectShape.Toml

set_option autoImplicit false

/-- Arrays, inline tables and the parts of a key stay below this number. -/
def depthLimit : Nat := 80

def isBare (c : Char) : Bool :=
  c.isAlphanum || c == '-' || c == '_'

def simpleKey (chars : List Char) : Option (String × List Char) :=
  match chars with
  | '"' :: rest => shortString '"' rest
  | '\'' :: rest => shortString '\'' rest
  | _ =>
      match chars.span isBare with
      | ([], _) => none
      | (word, rest) => some (String.ofList word, rest)

def keyParts : Nat → List Char → Option (List String × List Char)
  | 0, _ => none
  | fuel + 1, chars => do
      let (part, rest) ← simpleKey (skipBlanks chars)
      match skipBlanks rest with
      | '.' :: rest => do
          let (later, rest) ← keyParts fuel rest
          return (part :: later, rest)
      | rest => return ([part], rest)

/-- A key: the path to its table, and its own name. -/
def key (chars : List Char) : Option ((List String × String) × List Char) := do
  let (parts, rest) ← keyParts (depthLimit - 1) chars
  let name ← parts.getLast?
  return ((parts.dropLast, name), rest)

def skipComment : List Char → List Char
  | '#' :: rest => rest.dropWhile fun c => c == '\t' || 0x20 ≤ c.toNat
  | chars => chars

def skipLines : Nat → List Char → List Char
  | 0, chars => chars
  | fuel + 1, chars =>
      let rest := skipComment (skipBlanks chars)
      match lineEnd rest with
      | some rest => skipLines fuel rest
      | none => rest

/-- The rest of a line: blanks and a comment, and the end of the line or of the document. -/
def lineRest (chars : List Char) : Option (List Char) :=
  match skipComment (skipBlanks chars) with
  | [] => some []
  | rest => lineEnd rest

mutual

/-- A value, with fewer than `depth` arrays and inline tables in each other. -/
def value : Nat → Nat → List Char → Option (Data × List Char)
  | 0, _, _ => none
  | fuel + 1, depth, chars =>
      match chars with
      | '"' :: _ => (readString chars).map fun (text, rest) => (.string text, rest)
      | '\'' :: _ => (readString chars).map fun (text, rest) => (.string text, rest)
      | '[' :: rest => do
          guard (1 < depth)
          let (items, rest) ← arrayItems fuel (depth - 1) rest
          return (.array items, rest)
      | '\x7b' :: rest => do
          guard (1 < depth)
          match skipBlanks rest with
          | '\x7d' :: rest => return (.table [], rest)
          | rest => do
              let (table, rest) ← inlineFields fuel (depth - 1) Table.empty rest
              return (table.data, rest)
      | 't' :: 'r' :: 'u' :: 'e' :: rest => some (.boolean true, rest)
      | 'f' :: 'a' :: 'l' :: 's' :: 'e' :: rest => some (.boolean false, rest)
      | _ => numeric chars
termination_by structural fuel => fuel

/-- The items of an array up to its closing bracket; a comma may follow the last one. -/
def arrayItems : Nat → Nat → List Char → Option (List Data × List Char)
  | 0, _, _ => none
  | fuel + 1, depth, chars =>
      match skipLines chars.length chars with
      | ']' :: rest => some ([], rest)
      | chars => do
          let (item, rest) ← value fuel depth chars
          match skipLines rest.length rest with
          | ']' :: rest => return ([item], rest)
          | ',' :: rest => do
              let (items, rest) ← arrayItems fuel depth rest
              return (item :: items, rest)
          | _ => none
termination_by structural fuel => fuel

def inlineFields : Nat → Nat → Table → List Char → Option (Table × List Char)
  | 0, _, _, _ => none
  | fuel + 1, depth, table, chars => do
      let ((path, name), rest) ← key chars
      let rest ← mark '=' rest
      let (data, rest) ← value fuel depth (skipBlanks rest)
      let table ← table.insert path name data
      match skipBlanks rest with
      | '\x7d' :: rest => return (table, rest)
      | ',' :: rest => inlineFields fuel depth table rest
      | _ => none
termination_by structural fuel => fuel

end

/-- A document while it is read: all its tables, and the path of the table that lines go into. -/
structure Document where
  root : Table := .empty
  current : List String := []

def header (document : Document) (chars : List Char) : Option (Document × List Char) :=
  match chars with
  | '[' :: rest => do
      let ((path, name), rest) ← key rest
      let rest ← mark ']' rest
      let rest ← mark ']' rest
      let root ← document.root.openElement path name
      return ({ root, current := path ++ [name] }, rest)
  | _ => do
      let ((path, name), rest) ← key chars
      let rest ← mark ']' rest
      let root ← document.root.openTable path name
      return ({ root, current := path ++ [name] }, rest)

def assignment (document : Document) (chars : List Char) : Option (Document × List Char) := do
  let ((path, name), rest) ← key chars
  let rest ← mark '=' rest
  let (data, rest) ← value (2 * chars.length + 2) depthLimit (skipBlanks rest)
  let root ← document.root.change false document.current fun table => table.insert path name data
  return ({ document with root }, rest)

def lines : Nat → Document → List Char → Option Document
  | 0, _, _ => none
  | fuel + 1, document, chars =>
      match skipBlanks chars with
      | [] => some document
      | '#' :: rest => do lines fuel document (← lineRest ('#' :: rest))
      | '[' :: rest => do
          let (document, rest) ← header document rest
          lines fuel document (← lineRest rest)
      | chars =>
          match lineEnd chars with
          | some rest => lines fuel document rest
          | none => do
              let (document, rest) ← assignment document chars
              lines fuel document (← lineRest rest)

/-- The data of a whole text, which is always a table; nothing if the text is no TOML. A byte order
mark may open it. -/
def read (text : String) : Option Data :=
  let chars :=
    match text.toList with
    | '\uFEFF' :: rest => rest
    | chars => chars
  (lines (chars.length + 1) {} chars).map fun document => document.root.data

end ObjectShape.Toml
