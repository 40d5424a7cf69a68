import ObjectShape.Proofs.Path.Order
import ObjectShape.Proofs.Shape.Assembly
import ObjectShape.Proofs.Text.Bytes

/-!
# The order of the keys

Whether one path lies below another can be told from their bytes, and the cut that this takes never
splits a character. The test undoes `join`, and it agrees with the order in which the keys of a shape
are sorted and with the depth of paths: whatever lies below a path is deeper than it and sorted
behind it, although a path that lies elsewhere may be sorted between the two.
-/

namespace ObjectShape.Path

set_option autoImplicit false

/-- The test on bytes: the path is longer than the ancestor and starts with it, and the rest of the
path starts with a separator. There is no answer if the rest would start inside a character. -/
def isBelowInBytes (path ancestor : String) : Option Bool :=
  if ancestor.utf8ByteSize < path.utf8ByteSize && path.startsWith ancestor then
    (path.pos? ⟨ancestor.utf8ByteSize⟩).map fun cut => (path.sliceFrom cut).startsWith separator
  else some false

theorem is_below_append_iff (ancestor rest : String) :
    isBelow (ancestor ++ rest) ancestor = true ↔ rest.toList.head? = some separator := by
  rw [is_below_iff, String.toList_append, List.head?_eq_some_iff]
  simp only [List.append_right_inj]

theorem eq_append_of_characters {path front : String} {rest : List Char}
    (continued : path.toList = front.toList ++ rest) : path = front ++ String.ofList rest := by
  apply String.toList_injective
  rw [String.toList_append, String.toList_ofList, continued]

/-- A text can be cut where the front of it ends, and the back is left. -/
theorem cut_of_append (front back : String) :
    ∃ cut, (front ++ back).pos? ⟨front.utf8ByteSize⟩ = some cut ∧
      ((front ++ back).sliceFrom cut).copy = back := by
  have valid : (⟨front.utf8ByteSize⟩ : String.Pos.Raw).IsValid (front ++ back) :=
    String.Pos.Raw.isValid_iff_exists_append.mpr ⟨front, back, rfl, rfl⟩
  refine ⟨(front ++ back).pos _ valid, ?_, ?_⟩
  · have inSlice := String.Pos.Raw.isValidForSlice_eq_true_iff.mpr valid.toSlice
    rw [String.pos?, String.Slice.pos?, dif_pos inSlice]
    rfl
  · have splits : ((front ++ back).pos _ valid).Splits front back := ⟨rfl, rfl⟩
    exact (String.Pos.splits _).eq_right splits

/-- The test on bytes always has an answer, and it is the right one. -/
theorem is_below_in_bytes_eq (path ancestor : String) :
    isBelowInBytes path ancestor = some (isBelow path ancestor) := by
  rw [isBelowInBytes]
  by_cases longer : ancestor.utf8ByteSize < path.utf8ByteSize && path.startsWith ancestor
  · rw [if_pos longer]
    obtain ⟨_, starts⟩ := Bool.and_eq_true_iff.mp longer
    obtain ⟨rest, continued⟩ := String.startsWith_string_iff.mp starts
    obtain rfl := eq_append_of_characters continued.symm
    obtain ⟨cut, found, left⟩ := cut_of_append ancestor (String.ofList rest)
    rw [found, Option.map_some, String.Slice.startsWith_char_eq_head?, left, Option.some.injEq,
      Bool.eq_iff_iff, is_below_append_iff, beq_iff_eq]
  · rw [if_neg longer, Option.some.injEq, eq_comm, Bool.eq_false_iff]
    intro below
    obtain ⟨rest, continued⟩ := (is_below_iff path ancestor).mp below
    obtain rfl := eq_append_of_characters continued
    apply longer
    rw [Bool.and_eq_true]
    constructor
    · have filled := Char.utf8Size_pos separator
      rw [String.ofList_cons, String.utf8ByteSize_append, String.utf8ByteSize_append,
        String.utf8ByteSize_singleton, decide_eq_true_eq]
      omega
    · simp [String.startsWith_string_iff]

/-- What a shape relies on when it passes over the keys below a settled one: below a path lies just
what is joined from it, this is a strict order in which the ancestors of one path form a chain, and
whatever lies below has later bytes and more segments. -/
structure DescentTest (below : String → String → Bool) : Prop where
  joined : ∀ path {ancestor}, ancestor ≠ "" →
    (below path ancestor = true ↔ ∃ key, path = join (some ancestor) key)
  irrefl : ∀ path, below path path = false
  trans : ∀ {path middle ancestor}, below path middle = true → below middle ancestor = true →
    below path ancestor = true
  comparable : ∀ {path left right}, below path left = true → below path right = true →
    left = right ∨ below left right = true ∨ below right left = true
  later : ∀ {path ancestor}, below path ancestor = true → Text.bytes ancestor < Text.bytes path
  deeper : ∀ {path ancestor}, below path ancestor = true → depth ancestor < depth path

/-- The keys in their order: all of them, by their bytes. -/
theorem sort_keys_by_bytes (keys : List String) :
    (Shape.sortKeys keys).Perm keys ∧
      (Shape.sortKeys keys).Pairwise fun earlier later =>
        Text.bytes earlier ≤ Text.bytes later := by
  constructor
  · exact List.mergeSort_perm _ _
  · exact (Shape.sort_keys_ascending keys).imp (Text.le_iff_bytes_le _ _).mp

/-- To lie below a path is what the test of descent has to be, the test on bytes computes it for any
two texts, and keys are sorted by the order of bytes in which a path comes after its ancestors. -/
theorem is_below_tests_descent :
    DescentTest isBelow ∧
      (∀ path ancestor, isBelowInBytes path ancestor = some (isBelow path ancestor)) ∧
      ∀ keys, (Shape.sortKeys keys).Perm keys ∧
        (Shape.sortKeys keys).Pairwise fun earlier later =>
          Text.bytes earlier ≤ Text.bytes later := by
  refine ⟨?_, is_below_in_bytes_eq, sort_keys_by_bytes⟩
  exact
    { joined := is_below_iff_join
      irrefl := is_below_irrefl
      trans := is_below_trans
      comparable := is_below_comparable
      later := fun below => (Text.lt_iff_bytes_lt _ _).mp (lt_of_is_below below)
      deeper := depth_lt_of_is_below }

-- A sibling can stand between a path and what lies below it.
example : "ä" < "ä-b" ∧ "ä-b" < "ä.b" ∧ isBelow "ä-b" "ä" = false ∧ isBelow "ä.b" "ä" = true := by
  decide

end ObjectShape.Path
