import ObjectShape.Settings.Document
import ObjectShape.Settings.Environment

/-!
# Where settings come from

Documents at usual places, one in the user's own directory, one that is named outright, and the
environment: each counts more than those before it. Only the one that is named has to be there, but
every document that is there has to be in order.
-/

namespace ObjectShape

set_option autoImplicit false

inductive SettingsFault where
  | missing (path : String)
  /-- A file that is not known to hold settings by its name. -/
  | unknownFormat (path : String)
  | unreadable (path : String) (fault : FileFault)
  | malformed (path : String)
  /-- Some setting cannot be read as what it is meant to be. -/
  | mistyped
  deriving DecidableEq, Repr, Inhabited

def SettingsFault.message : SettingsFault → String
  | .missing path => s!"configuration file \"{path}\" not found"
  | .unknownFormat path => s!"configuration file \"{path}\" is not of a registered file format"
  | .unreadable path fault => s!"configuration file \"{path}\" cannot be read: {fault.message}"
  | .malformed path => s!"configuration file \"{path}\" is not well formed"
  | .mistyped => "a setting has a wrong type"

namespace Settings

variable {m : Type → Type} [Monad m]

def extension : String := "toml"

/-- The document that a name stands for: the file with that name, or else the file with the
extension behind it. -/
def find (files : FileSystem m) (name : String) : ExceptT SettingsFault m String := do
  let last := FilePath.lastName? name
  if ← files.isFile name then
    if last.bind FilePath.extension? == some extension then return name
    else throw (.unknownFormat name)
  else
    let longer := FilePath.trimEnd name ++ "." ++ extension
    if last.isSome && (← files.isFile longer) then return longer
    else throw (.missing name)

/-- The text of a document, without a byte order mark. -/
def readText (files : FileSystem m) (name : String) : ExceptT SettingsFault m String := do
  let path ← find files name
  match ← files.read path with
  | .ok text =>
      match text.toList with
      | '\uFEFF' :: rest => return String.ofList rest
      | _ => return text
  | .error fault => throw (.unreadable path fault)

def sourceOf (name text : String) : Except SettingsFault (List (String × Node)) :=
  match Toml.read text with
  | some data => .ok (Node.ofData data).fields
  | none => .error (.malformed name)

def required (files : FileSystem m) (name : String) :
    ExceptT SettingsFault m (List (String × Node)) := do
  let text ← readText files name
  ExceptT.mk (pure (sourceOf name text))

def optional (files : FileSystem m) (name : String) :
    ExceptT SettingsFault m (List (String × Node)) := do
  match ← tryCatch (some <$> readText files name) fun _ => pure none with
  | some text => ExceptT.mk (pure (sourceOf name text))
  | none => return []

/-- The usual places, the one that counts least first. -/
def usualPlaces : List String :=
  ["schematic.toml", ".schematic.toml", "config/schematic.toml"]

def userPlaces (files : FileSystem m) (environment : Environment) : m (List String) := do
  match environment.settingsHome? with
  | none => return []
  | some home =>
      let place := FilePath.descend home ["schematic", "schematic.toml"]
      return if ← files.holds place then [place] else []

def load (files : FileSystem m) (environment : Environment) (named : Option String) :
    ExceptT SettingsFault m Settings := do
  let places := usualPlaces ++ (← (userPlaces files environment : m (List String)))
  let usual ← places.mapM (optional files)
  let named ← named.toList.mapM (required files)
  match Spelling.lenient.settings (Node.ofSources (usual ++ named ++ [environment.source])) with
  | some settings => return settings
  | none => throw .mistyped

def save (settings : Settings) (files : FileSystem m) (path : String) :
    m (Except FileFault Unit) :=
  files.write path settings.toText

end Settings

end ObjectShape
