import ObjectShape.Files.Basic
import ObjectShape.Json.Reader
import ObjectShape.Memo

/-!
# Documents in files

A document is a JSON text in a file, and a schema may be one. Documents are named one by one or by a
directory, which stands for all documents below it in the order of their paths.
-/

namespace ObjectShape

set_option autoImplicit false

inductive DocumentFault where
  | unreadable (fault : FileFault)
  | notJson (path : String) (fault : Json.ReadFault)
  | invalidSchema (path : String) (fault : SchemaFault)
  deriving DecidableEq, Repr, Inhabited

/-- A file that cannot be read says so in the system's words alone. -/
def DocumentFault.message : DocumentFault → String
  | .unreadable fault => fault.message
  | .notJson path fault => s!"Failed to parse JSON in {path}: {fault.message}"
  | .invalidSchema path fault => s!"Invalid schema in {path}: {fault.message}"

namespace Document

variable {φ : Type} {m : Type → Type} [Monad m]

def ofText (path text : String) : Except DocumentFault (Value φ) :=
  match Json.read text with
  | .ok json => .ok (json.toValue.run {}).1
  | .error fault => .error (.notJson path fault)

def schemaOf (policy : EmptyPolicy) (path : String) (value : Value φ) :
    Except DocumentFault (Handle φ) :=
  (compileFresh policy 0 value).mapError (DocumentFault.invalidSchema path)

def load (files : FileSystem m) (path : String) : m (Except DocumentFault (Value φ)) := do
  match ← files.read path with
  | .ok text => return ofText path text
  | .error fault => return .error (.unreadable fault)

def loadSchema (files : FileSystem m) (policy : EmptyPolicy) (path : String) :
    m (Except DocumentFault (Handle φ)) :=
  return (← load files path).bind (schemaOf policy path)

def isDocument (names : List String) : Bool :=
  names.getLast?.any fun name => FilePath.extension? name == some "json"

/-- The documents among the files below a directory, in the order of their paths. -/
def inOrder (found : List (List String)) : List (List String) :=
  (found.filter isDocument).mergeSort FilePath.noLater

/-- The documents that a path stands for. What is no directory stands for itself, be it there or
not. -/
def collectAt (files : FileSystem m) (path : String) : m (List String) := do
  if ← files.isDirectory path then
    return (inOrder (← files.filesBelow path)).map (FilePath.descend path)
  else return [path]

def collect (files : FileSystem m) (paths : List String) : m (List String) :=
  return (← paths.mapM (collectAt files)).flatten

end Document

end ObjectShape
