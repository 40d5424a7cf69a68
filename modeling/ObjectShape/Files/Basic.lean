import ObjectShape.Files.Fault
import ObjectShape.Text.Pieces

/-!
# File systems

What reading documents and settings asks of the place where they are kept, and the spelling of
paths: names that a slash divides.
-/

namespace ObjectShape

set_option autoImplicit false

inductive FileKind where
  | file
  | directory
  /-- Anything that is neither, such as a device. -/
  | special
  deriving DecidableEq, Repr, Inhabited

structure FileSystem (m : Type → Type) where
  kind? : String → m (Option FileKind)
  read : String → m (Except FileFault String)
  write : (path : String) → (content : String) → m (Except FileFault Unit)
  /-- The regular files at any depth below a directory, each once, as the names that lead to it from
  there. Their order means nothing. -/
  filesBelow : String → m (List (List String))

namespace FileSystem

variable {m : Type → Type} [Monad m]

def isFile (files : FileSystem m) (path : String) : m Bool :=
  return (← files.kind? path) == some .file

def isDirectory (files : FileSystem m) (path : String) : m Bool :=
  return (← files.kind? path) == some .directory

def holds (files : FileSystem m) (path : String) : m Bool :=
  return (← files.kind? path).isSome

end FileSystem

namespace FilePath

def isAbsolute (path : String) : Bool :=
  path.toList.head? == some '/'

/-- The names in a path; two slashes in a row have an empty one between them. -/
def names (path : String) : List String :=
  Text.cut '/' path

def child (directory name : String) : String :=
  if directory.isEmpty || directory.toList.getLast? == some '/' then directory ++ name
  else directory ++ "/" ++ name

def descend (directory : String) (names : List String) : String :=
  names.foldl child directory

/-- Whether the names come before the others, or are the same: name by name, in the order of their
bytes. -/
def noLater : List String → List String → Bool
  | [], _ => true
  | _ :: _, [] => false
  | name :: rest, other :: others =>
      if name = other then noLater rest others else decide (name < other)

/-- What stands after the last dot of a name. A dot at the front begins no extension. -/
def extension? (name : String) : Option String :=
  let reversed := name.toList.reverse
  let ending := reversed.takeWhile (· != '.')
  match reversed.dropWhile (· != '.') with
  | [] | [_] => none
  | _ :: _ :: _ => if name = ".." then none else some (String.ofList ending.reverse)

/-- The path without slashes and names of a single dot at its end, which name nothing themselves. -/
def trimEnd (path : String) : String :=
  let rec trim : List Char → List Char
    | ['/'] => ['/']
    | '/' :: rest => trim rest
    | '.' :: '/' :: rest => trim rest
    | chars => chars
  String.ofList (trim path.toList.reverse).reverse

def lastName? (path : String) : Option String :=
  match (names (trimEnd path)).getLast? with
  | none | some "" | some "." | some ".." => none
  | some name => some name

end FilePath

end ObjectShape
