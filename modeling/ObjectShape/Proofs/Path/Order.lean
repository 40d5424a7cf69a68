import ObjectShape.Path

/-!
# The order of paths

To lie below a path is a strict order, and the ancestors of one path are nested in each other. A path
has more segments than its ancestors, and the order by characters puts it after them, so a sorted
list of paths names each ancestor before what lies below it.
-/

namespace ObjectShape.Path

set_option autoImplicit false

theorem is_below_iff (path ancestor : String) :
    isBelow path ancestor = true ↔
      ∃ rest, path.toList = ancestor.toList ++ separator :: rest := by
  rw [isBelow, List.isPrefixOf_iff_prefix]
  constructor
  · intro continuation
    obtain ⟨rest, continued⟩ := continuation
    exact ⟨rest, by rw [← continued]; simp⟩
  · intro continuation
    obtain ⟨rest, continued⟩ := continuation
    exact ⟨rest, by rw [continued]; simp⟩

/-- To lie below a path is to be joined from it. -/
theorem is_below_iff_join (path : String) {ancestor : String} (filled : ancestor ≠ "") :
    isBelow path ancestor = true ↔ ∃ key, path = join (some ancestor) key := by
  rw [is_below_iff]
  constructor
  · intro continuation
    obtain ⟨rest, continued⟩ := continuation
    refine ⟨String.ofList rest, String.toList_injective ?_⟩
    rw [to_list_join_some _ filled, String.toList_ofList, continued]
  · intro joined
    obtain ⟨key, rfl⟩ := joined
    exact ⟨key.toList, to_list_join_some key filled⟩

theorem is_below_irrefl (path : String) : isBelow path path = false := by
  rw [Bool.eq_false_iff]
  intro below
  obtain ⟨rest, continued⟩ := (is_below_iff path path).mp below
  have lengths := congrArg List.length continued
  simp at lengths

theorem is_below_trans {path middle ancestor : String} (lower : isBelow path middle = true)
    (upper : isBelow middle ancestor = true) : isBelow path ancestor = true := by
  rw [is_below_iff] at lower upper ⊢
  obtain ⟨rest, lower⟩ := lower
  obtain ⟨between, upper⟩ := upper
  exact ⟨between ++ separator :: rest, by rw [lower, upper]; simp⟩

theorem le_of_is_below {path ancestor : String} (below : isBelow path ancestor = true) :
    ancestor ≤ path := by
  obtain ⟨rest, continued⟩ := (is_below_iff path ancestor).mp below
  change @LE.le (List Char) List.instLE ancestor.toList path.toList
  rw [continued]
  exact List.le_append_left

theorem lt_of_is_below {path ancestor : String} (below : isBelow path ancestor = true) :
    ancestor < path := by
  apply Std.lt_of_le_of_ne (le_of_is_below below)
  intro same
  rw [same, is_below_irrefl] at below
  exact Bool.noConfusion below

theorem depth_lt_of_is_below {path ancestor : String} (below : isBelow path ancestor = true) :
    depth ancestor < depth path := by
  obtain ⟨rest, continued⟩ := (is_below_iff path ancestor).mp below
  rw [depth_eq_count, depth_eq_count, continued, List.count_append, List.count_cons_self]
  omega

/-- The paths above one path lie below each other. -/
theorem is_below_comparable {path left right : String} (belowLeft : isBelow path left = true)
    (belowRight : isBelow path right = true) :
    left = right ∨ isBelow left right = true ∨ isBelow right left = true := by
  rw [isBelow, List.isPrefixOf_iff_prefix] at belowLeft belowRight
  have leftStarts := (List.prefix_append left.toList [separator]).trans belowLeft
  have rightStarts := (List.prefix_append right.toList [separator]).trans belowRight
  rcases Nat.lt_trichotomy left.toList.length right.toList.length with shorter | same | longer
  · right; right
    rw [isBelow, List.isPrefixOf_iff_prefix]
    exact List.prefix_of_prefix_length_le belowLeft rightStarts (by simp; omega)
  · left
    have starts := List.prefix_of_prefix_length_le leftStarts rightStarts (Nat.le_of_eq same)
    exact String.toList_injective (starts.eq_of_length same)
  · right; left
    rw [isBelow, List.isPrefixOf_iff_prefix]
    exact List.prefix_of_prefix_length_le belowRight leftStarts (by simp; omega)

theorem not_is_below_of_le {earlier later : String} (ordered : earlier ≤ later) :
    isBelow earlier later = false := by
  rw [Bool.eq_false_iff]
  intro below
  exact String.not_lt.mpr ordered (lt_of_is_below below)

end ObjectShape.Path
