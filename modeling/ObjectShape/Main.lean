import ObjectShape.CommandLine.Run

/-!
# The program

The files, the environment and the streams of the system, and the command line on top of them.
-/

namespace ObjectShape.Program

set_option autoImplicit false

def faultOf (error : IO.Error) : FileFault :=
  let numbered (number : UInt32) (reason : String) : FileFault :=
    match number with
    | 20 => .notDirectory
    | 21 => .isDirectory
    | _ => .refused reason number.toNat
  match error with
  | .noFileOrDirectory _ _ _ => .missing
  | .inappropriateType _ number reason | .permissionDenied _ number reason
  | .resourceExhausted _ number reason | .invalidArgument _ number reason
  | .alreadyExists _ number reason => numbered number reason
  | .resourceBusy number reason | .otherError number reason => numbered number reason
  | error => .refused error.toString 0

def attempt {α : Type} (action : IO α) : IO (Except FileFault α) := do
  match ← action.toBaseIO with
  | .ok result => return .ok result
  | .error error => return .error (faultOf error)

def kindOf : IO.FS.FileType → FileKind
  | .file => .file
  | .dir => .directory
  | .symlink | .other => .special

/-- The regular files below a directory. What cannot be listed is left out, and links are not
followed. -/
partial def filesBelow (path : String) : IO (List (List String)) := do
  match ← attempt (System.mkFilePath [path]).readDir with
  | .error _ => return []
  | .ok entries =>
      let found ← entries.toList.mapM fun entry => do
        let inside := FilePath.child path entry.fileName
        match ← attempt (System.mkFilePath [inside]).symlinkMetadata with
        | .error _ => return []
        | .ok data =>
            match kindOf data.type with
            | .file => return [[entry.fileName]]
            | .directory => return (← filesBelow inside).map (entry.fileName :: ·)
            | .special => return []
      return found.flatten

def systemFiles : FileSystem IO where
  kind? path := do
    match ← attempt (System.mkFilePath [path]).metadata with
    | .ok data => return some (kindOf data.type)
    | .error _ => return none
  read path := do
    match ← attempt (IO.FS.readBinFile path) with
    | .error fault => return .error fault
    | .ok bytes =>
        match String.fromUTF8? bytes with
        | some text => return .ok text
        | none => return .error .notText
  write path content := attempt (IO.FS.writeFile path content)
  filesBelow := filesBelow

def environment : IO Settings.Environment := do
  match ← attempt (IO.FS.readBinFile "/proc/self/environ") with
  | .error _ => return []
  | .ok bytes =>
      let entries := Text.cut '\x00' ((String.fromUTF8? bytes).getD "")
      return entries.filterMap fun entry =>
        match Text.cut '=' entry with
        | name :: value :: more => some (name, String.intercalate "=" (value :: more))
        | _ => none

end ObjectShape.Program

open ObjectShape in
def main (words : List String) : IO UInt32 := do
  let outcome ← CommandLine.run Program.systemFiles (← Program.environment) words
  IO.print outcome.output
  IO.eprint outcome.errors
  return outcome.exitCode.toUInt32
