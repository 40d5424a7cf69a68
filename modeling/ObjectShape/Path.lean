import ObjectShape.Text.Pieces

/-!
# Dotted paths

A property inside nested objects is addressed by the keys that lead to it, joined by dots. A key may
itself hold dots, and then its path is also the spelling of deeper keys. `join` is the only way a
path grows, `isBelow` is its order, and `depth` counts its segments.
-/

namespace ObjectShape.Path

set_option autoImplicit false

def separator : Char := '.'

/-- The path of `key` under `above`. An empty path above counts as none. -/
def join (above : Option String) (key : String) : String :=
  match above with
  | none => key
  | some path => if path = "" then key else path ++ String.singleton separator ++ key

/-- Whether the path lies strictly below the ancestor: the ancestor, a separator and anything. -/
def isBelow (path ancestor : String) : Bool :=
  (ancestor.toList ++ [separator]).isPrefixOf path.toList

def segments (path : String) : List String :=
  Text.cut separator path

def depth (path : String) : Nat :=
  (segments path).length

/-- A key that holds a separator spells more than one segment. -/
def isDotted (key : String) : Bool :=
  key.toList.contains separator

theorem join_some {path : String} (key : String) (filled : path ≠ "") :
    join (some path) key = path ++ String.singleton separator ++ key := by
  simp [join, filled]

theorem to_list_join_some {path : String} (key : String) (filled : path ≠ "") :
    (join (some path) key).toList = path.toList ++ separator :: key.toList := by
  simp [join_some key filled]

theorem depth_eq_count (path : String) : depth path = path.toList.count separator + 1 := by
  simp [depth, segments, Text.cut, Text.length_split_on]

end ObjectShape.Path
