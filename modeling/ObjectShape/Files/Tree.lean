import ObjectShape.Entries
import ObjectShape.Files.Basic

/-!
# Files in memory

A tree of directories and files, the directory that relative paths start from, and the file system
that they make.
-/

namespace ObjectShape

set_option autoImplicit false

inductive FileTree where
  | file (content : String)
  | directory (entries : List (String × FileTree))
  deriving Inhabited

namespace FileTree

def kind : FileTree → FileKind
  | .file _ => .file
  | .directory _ => .directory

def find? : List String → FileTree → Option FileTree
  | [], tree => some tree
  | name :: rest, .directory entries => (Entries.get? name entries).bind (find? rest)
  | _ :: _, .file _ => none

/-- Changes what the names lead to, making the missing directories on the way. Nothing is changed
below a file. -/
def update : List String → (Option FileTree → FileTree) → Option FileTree → FileTree
  | [], change, present => change present
  | name :: rest, change, present =>
      match present.getD (.directory []) with
      | .directory entries => .directory (Entries.upsert name (update rest change) entries)
      | .file content => .file content

mutual

def files : FileTree → List (List String × String)
  | .file content => [([], content)]
  | .directory entries => filesAmong entries
termination_by structural tree => tree

def filesAmong : List (String × FileTree) → List (List String × String)
  | [] => []
  | (name, tree) :: rest =>
      (tree.files.map fun entry => (name :: entry.1, entry.2)) ++ filesAmong rest
termination_by structural entries => entries

end

/-- Follows the names from a place in the tree, which is given as the names from the root to it, the
last one first. Only a directory is left again, be it by a name of one or two dots. -/
def follow (root : FileTree) : List String → List String → Except FileFault (List String)
  | place, [] => .ok place
  | place, name :: rest =>
      match root.find? place.reverse with
      | none => .error .missing
      | some (.file _) => .error .notDirectory
      | some (.directory _) =>
          if name = "" || name = "." then follow root place rest
          else if name = ".." then follow root place.tail rest
          else follow root (name :: place) rest

end FileTree

structure Disk where
  root : FileTree
  /-- The names that lead to the directory that relative paths start from. -/
  current : List String
  deriving Inhabited

namespace Disk

/-- A disk whose only directory is the current one, with files at paths below it. A path without a
content is a directory. -/
def ofFiles (current : String) (files : List (String × Option String)) : Disk :=
  let add (root : FileTree) (entry : String × Option String) : FileTree :=
    let names := (FilePath.names entry.1).filter fun name => !(name == "" || name == ".")
    root |> FileTree.update (current :: names) fun present =>
      match entry.2 with
      | some content => .file content
      | none => present.getD (.directory [])
  { root := files.foldl add (.directory [(current, .directory [])]), current := [current] }

/-- The files below the current directory, with their paths from there, in the order of the paths.
-/
def files (disk : Disk) : List (String × String) :=
  let below := ((disk.root.find? disk.current).map FileTree.files).getD []
  let named := below.map fun entry => (FilePath.descend "" entry.1, entry.2)
  named.mergeSort fun left right => decide (left.1 ≤ right.1)

/-- The names that lead from the root to where a path points. Nothing needs to stand there, but all
directories before it do. -/
def place (disk : Disk) (path : String) : Except FileFault (List String) := do
  if path.isEmpty then throw .missing
  let start := if FilePath.isAbsolute path then [] else disk.current.reverse
  return (← disk.root.follow start (FilePath.names path)).reverse

def find (disk : Disk) (path : String) : Except FileFault FileTree := do
  match disk.root.find? (← disk.place path) with
  | some tree => return tree
  | none => throw .missing

def read (disk : Disk) (path : String) : Except FileFault String := do
  match ← disk.find path with
  | .file content => return content
  | .directory _ => throw .isDirectory

/-- A path that ends with a slash can only name a directory. -/
def write (disk : Disk) (path content : String) : Except FileFault Disk := do
  let ends := path.toList.getLast? == some '/'
  let names ← disk.place (if ends then FilePath.trimEnd path else path)
  match disk.root.find? names with
  | some (.directory _) => throw .isDirectory
  | _ =>
      if ends then throw .isDirectory
      return { disk with root := FileTree.update names (fun _ => .file content) disk.root }

def fileSystem : FileSystem (StateM Disk) where
  kind? path disk := ((disk.find path).toOption.map FileTree.kind, disk)
  read path disk := (disk.read path, disk)
  write path content disk :=
    match disk.write path content with
    | .ok disk => (.ok (), disk)
    | .error fault => (.error fault, disk)
  filesBelow path disk :=
    match disk.find path with
    | .ok tree => (tree.files.map Prod.fst, disk)
    | .error _ => ([], disk)

end Disk

end ObjectShape
