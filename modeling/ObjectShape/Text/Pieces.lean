/-!
# Pieces of a text

A text is cut at every separator. There is always at least one piece, and two separators in a row
have an empty piece between them.
-/

namespace ObjectShape.Text

set_option autoImplicit false

def cut (separator : Char) (text : String) : List String :=
  (text.toList.splitOn separator).map String.ofList

theorem length_split_on (separator : Char) (chars : List Char) :
    (chars.splitOn separator).length = chars.count separator + 1 := by
  induction chars with
  | nil => rfl
  | cons c rest ih =>
      rw [List.splitOn_cons_eq_if_modifyHead, List.count_cons]
      split
      · rw [List.length_cons, ih]
      · rw [List.length_modifyHead, ih, Nat.add_zero]

end ObjectShape.Text
