import ObjectShape.Decimal.Reading
import ObjectShape.Files.Basic
import ObjectShape.Settings.Layers

/-!
# Settings in the environment

A variable whose name begins with `SCHEMATIC__` is a setting. Two underscores in the rest of its
name lead one level deeper, and its text is a flag or a number if it can be read as one.
-/

namespace ObjectShape.Settings

set_option autoImplicit false

abbrev Environment := List (String × String)

namespace Environment

/-- What the names of settings begin with, in small letters. Names are read in letters of either
case. -/
def start : String := "schematic__"

def key? (name : String) : Option String :=
  let name := name.toLower
  if start.toList.isPrefixOf name.toList then
    some ((String.ofList (name.toList.drop start.length)).replace "__" ".")
  else none

def value (text : String) : Node :=
  let chars := text.toList
  match text.toLower with
  | "true" => .flag true
  | "false" => .flag false
  | _ =>
      match (Decimal.integer? chars).filter Decimal.fits64, Decimal.float? chars with
      | some number, _ => .integer number
      | none, some number => .float number
      | none, none => .text text

def source (environment : Environment) : List (String × Node) :=
  Entries.ofList (environment.filterMap fun entry =>
    (key? entry.1).map fun key => (key, value entry.2))

def settingsHome? (environment : Environment) : Option String := do
  let home ← (Entries.get? "HOME" environment).filter (!String.isEmpty ·)
  let chosen := (Entries.get? "XDG_CONFIG_HOME" environment).filter FilePath.isAbsolute
  return chosen.getD (FilePath.child home ".config")

end Environment

end ObjectShape.Settings
