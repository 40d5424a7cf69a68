/-!
# Why a file cannot be read or written
-/

namespace ObjectShape

set_option autoImplicit false

inductive FileFault where
  | missing
  | notDirectory
  | isDirectory
  /-- The bytes of the file are no text. -/
  | notText
  /-- Any other refusal, with the system's own reason and number. -/
  | refused (reason : String) (number : Nat)
  deriving DecidableEq, Repr, Inhabited

namespace FileFault

def numbered (reason : String) (number : Nat) : String :=
  s!"{reason} (os error {number})"

def message : FileFault → String
  | .missing => numbered "No such file or directory" 2
  | .notDirectory => numbered "Not a directory" 20
  | .isDirectory => numbered "Is a directory" 21
  | .notText => "stream did not contain valid UTF-8"
  | .refused reason number => numbered reason number

end FileFault

end ObjectShape
