import ObjectShape.Text.Digits
import ObjectShape.Toml.Data

/-!
# Layers of settings

Settings come from several sources, and what a later one says counts. Sources are laid over each
other key by key, down to the innermost tables; whatever is no table replaces what stands there as a
whole. A top-level key may spell the way to a deeper place, as names behind dots and positions in
brackets.
-/

namespace ObjectShape.Settings

set_option autoImplicit false

/-- Settings from any source, before their meaning is looked at. -/
inductive Node where
  /-- A place in an array that nothing was written to. -/
  | absent
  | flag (value : Bool)
  | integer (number : Int)
  | float (number : Float)
  | text (text : String)
  | array (items : List Node)
  | table (fields : List (String × Node))
  deriving Inhabited

namespace Node

mutual

/-- The data of a document. Dates are texts like any other. -/
def ofData : Toml.Data → Node
  | .string content => .text content
  | .integer number => .integer number
  | .float number => .float number
  | .boolean value => .flag value
  | .datetime content => .text content
  | .array items => .array (ofItems items)
  | .table fields => .table (ofFields fields)
termination_by structural data => data

def ofItems : List Toml.Data → List Node
  | [] => []
  | item :: rest => ofData item :: ofItems rest
termination_by structural items => items

def ofFields : List (String × Toml.Data) → List (String × Node)
  | [] => []
  | (key, item) :: rest => (key, ofData item) :: ofFields rest
termination_by structural fields => fields

end

def fields : Node → List (String × Node)
  | .table fields => fields
  | _ => []

def items : Node → List Node
  | .array items => items
  | _ => []

mutual

/-- What stands at a place after `later` was laid over it. -/
def laidOver (later : Node) (present : Option Node) : Node :=
  match later with
  | .table fields => fieldsLaidOver fields (present.getD (.table []))
  | later => later
termination_by structural later

/-- A node after the fields were laid over it, one after the other. -/
def fieldsLaidOver (later : List (String × Node)) (target : Node) : Node :=
  match later with
  | [] => target
  | (key, value) :: rest =>
      fieldsLaidOver rest
        (.table (Entries.upsert key (fun present => laidOver value present) target.fields))
termination_by structural later

end

end Node

/-- One step on the way to a place. A position below zero counts from the end of the array. -/
inductive Step where
  | name (key : String)
  | position (index : Int)
  deriving DecidableEq, Repr, Inhabited

def isNameChar (c : Char) : Bool :=
  c.isAlphanum || c == ' ' || c == '_' || c == '-'

def skipSpaces (chars : List Char) : List Char :=
  chars.dropWhile fun c => c == ' ' || c == '\t'

def readName (chars : List Char) : Option (String × List Char) :=
  let (name, rest) := chars.span isNameChar
  if name.isEmpty then none else some (String.ofList name, rest)

def readPosition (chars : List Char) : Option (Int × List Char) :=
  let (negative, chars) :=
    match skipSpaces chars with
    | '-' :: rest => (true, rest)
    | chars => (false, chars)
  let (digits, rest) := Text.spanDigits chars
  let size : Int := Text.decimalValue digits
  match skipSpaces rest with
  | ']' :: rest => if digits.isEmpty then none else some (if negative then -size else size, rest)
  | _ => none

/-- The steps that follow the first one; each takes at least one character. -/
def readSteps : Nat → List Char → Option (List Step)
  | _, [] => some []
  | 0, _ :: _ => none
  | fuel + 1, '.' :: rest => do
      let (name, rest) ← readName rest
      return .name name :: (← readSteps fuel rest)
  | fuel + 1, '[' :: rest => do
      let (index, rest) ← readPosition rest
      return .position index :: (← readSteps fuel rest)
  | _ + 1, _ :: _ => none

/-- The way that a top-level key spells. A key that spells none is a name as it is. -/
def wayOf (key : String) : List Step :=
  let way := do
    let (name, rest) ← readName key.toList
    return Step.name name :: (← readSteps rest.length rest)
  way.getD [.name key]

namespace Node

def placeOf (index : Int) (size : Nat) : Nat :=
  if 0 ≤ index then index.toNat else size - index.natAbs

/-- Changes the item at a place, making the array long enough. -/
def changeAt (place : Nat) (change : Option Node → Node) (items : List Node) : List Node :=
  let long := items ++ List.replicate (place + 1 - items.length) absent
  long.modify place fun item => change (some item)

/-- Changes what a way leads to. On the way, what is no table or no array becomes one. -/
def change : List Step → (Option Node → Node) → Option Node → Node
  | [], edit, present => edit present
  | .name key :: rest, edit, present =>
      .table (Entries.upsert key (change rest edit) ((present.map fields).getD []))
  | .position index :: rest, edit, present =>
      let items := (present.map items).getD []
      .array (changeAt (placeOf index items.length) (change rest edit) items)

/-- Lays a value over what a way leads to. An item of an array is replaced as a whole. -/
def lay (way : List Step) (value : Node) (root : Node) : Node :=
  match way.getLast? with
  | some (.position _) => change way (fun _ => value) root
  | _ => change way (laidOver value) root

def laySource (root : Node) (source : List (String × Node)) : Node :=
  source.foldl (fun root entry => lay (wayOf entry.1) entry.2 root) root

/-- All sources laid over each other, the first one at the bottom. -/
def ofSources (sources : List (List (String × Node))) : Node :=
  sources.foldl laySource (.table [])

end Node

end ObjectShape.Settings
