import ObjectShape.Decimal.Shortest
import ObjectShape.Settings.Basic
import ObjectShape.Settings.Layers

/-!
# Reading settings

Settings are tables with known fields, or arrays with the same parts in order. A missing part is as
it is by default, and an unknown one is ignored. How a single part is spelled depends on where it
comes from: a document that is read by itself is taken at its word, and sources that were laid over
each other are read leniently, because variables of the environment are texts without a type.
-/

namespace ObjectShape

set_option autoImplicit false

/-- How parts of settings are spelled. -/
structure Spelling (δ : Type) where
  flag? : δ → Option Bool
  text? : δ → Option String
  policy? : δ → Option EmptyPolicy
  fields? : δ → Option (List (String × δ))
  items? : δ → Option (List δ)

namespace Spelling

variable {δ α : Type}

/-- The parts with the given names, in this order where there are no names. -/
def parts (spelling : Spelling δ) (names : List String) (data : δ) :
    Option (String → Option δ) :=
  match spelling.fields? data with
  | some fields => some fun name => Entries.get? name fields
  | none => (spelling.items? data).map fun items name => items[names.idxOf name]?

def part (read : δ → Option α) (default : α) : Option δ → Option α
  | none => some default
  | some data => read data

def compiler (spelling : Spelling δ) (data : δ) : Option CompilerSettings := do
  let default : CompilerSettings := {}
  let find ← spelling.parts ["cache", "empty_schema"] data
  return {
    cache := ← part spelling.flag? default.cache (find "cache")
    emptySchema := ← part spelling.policy? default.emptySchema (find "empty_schema") }

def logging (spelling : Spelling δ) (data : δ) : Option LoggingSettings := do
  let default : LoggingSettings := {}
  let find ← spelling.parts ["filter"] data
  return { filter := ← part spelling.text? default.filter (find "filter") }

def settings (spelling : Spelling δ) (data : δ) : Option Settings := do
  let find ← spelling.parts ["compiler", "logging"] data
  return {
    compiler := ← part spelling.compiler {} (find "compiler")
    logging := ← part spelling.logging {} (find "logging") }

/-- Nothing but the name of a policy counts, as a text or as the only key over nothing. -/
def strictPolicy? : Toml.Data → Option EmptyPolicy
  | .string text => EmptyPolicy.ofName? text
  | .table [(name, .table [])] | .table [(name, .array [])] => EmptyPolicy.ofName? name
  | _ => none

/-- Every part has the one type it is meant to have. A date has no parts that are known. -/
def strict : Spelling Toml.Data where
  flag?
    | .boolean value => some value
    | _ => none
  text?
    | .string text => some text
    | _ => none
  policy? := strictPolicy?
  fields?
    | .table fields => some fields
    | .datetime _ => some []
    | _ => none
  items?
    | .array items => some items
    | _ => none

def flagOfText? (text : String) : Option Bool :=
  let text := text.toLower
  if ["1", "true", "yes", "on"].contains text then some true
  else if ["0", "false", "no", "off"].contains text then some false
  else none

/-- Numbers and texts may stand for flags, anything printable for a text, and letters may be of
either case in the name of a policy. -/
def lenient : Spelling Settings.Node where
  flag?
    | .flag value => some value
    | .integer number => some (number != 0)
    | .float number => some (number != 0)
    | .text text => flagOfText? text
    | _ => none
  text?
    | .text text => some text
    | .flag value => some (if value then "true" else "false")
    | .integer number => some (toString number)
    | .float number => some (Decimal.ofFloat number)
    | _ => none
  policy?
    | .text text => EmptyPolicy.ofName? text.toLower
    | .table [(name, _)] => EmptyPolicy.ofName? name.toLower
    | _ => none
  fields?
    | .table fields => some fields
    | _ => none
  items?
    | .array items => some items
    | _ => none

end Spelling

end ObjectShape
