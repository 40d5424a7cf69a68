import ObjectShape.Path
import ObjectShape.Value.Basic

/-!
# The outline of a value

The outline lists the parts of a value under their dotted paths, down to a given depth. A key that
holds dots may spell the path of a nested part; the nested part then wins, whatever the order of the
keys, and among parts that are not nested the first one recorded wins. The value itself has no path
and is not listed.
-/

namespace ObjectShape.Value

set_option autoImplicit false

variable {φ : Type}

/-- A part met on the walk through a value. It is `nested` if no key on the way to it is dotted. -/
structure Visit (φ : Type) where
  path : String
  nested : Bool
  part : Value φ

/-- The parts of a value down to the given depth, in the order of the walk: keys in their order, and
everything below a part before the part itself. -/
def visits : Nat → Option String → Bool → Value φ → List (Visit φ)
  | 0, _, _, _ => []
  | depth + 1, above, nested, value =>
      value.children.flatMap fun child =>
        let path := Path.join above child.1
        let plain := nested && !Path.isDotted child.1
        visits depth (some path) plain child.2 ++ [{ path, nested := plain, part := child.2 }]

/-- A nested part takes its path from whatever was recorded there; any other part only takes a free
one. -/
def record (outline : List (String × Value φ)) (visit : Visit φ) : List (String × Value φ) :=
  if visit.nested then Entries.put visit.path visit.part outline
  else Entries.putNew visit.path visit.part outline

/-- The parts of the value by path, `depth` levels deep. -/
def outline (depth : Nat) (value : Value φ) : List (String × Value φ) :=
  (visits depth none true value).foldl record []

def partAt (outline : List (String × Value φ)) (path : String) : Value φ :=
  (Entries.get? path outline).getD .undefined

end ObjectShape.Value
