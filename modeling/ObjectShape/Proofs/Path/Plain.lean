import ObjectShape.Proofs.Path.Order

/-!
# Paths of plain keys

A key is plain if it is not empty and holds no separator. The path of a chain of plain keys has
those keys for segments, so it spells no other chain, and two plain keys side by side lead to
paths of which none lies below the other.
-/

namespace ObjectShape

set_option autoImplicit false

theorem Text.not_mem_of_mem_split_on {separator : Char} {chars piece : List Char}
    (cut : piece ∈ chars.splitOn separator) : separator ∉ piece := by
  induction chars generalizing piece with
  | nil => simp_all
  | cons c rest ih =>
      obtain ⟨first, later, cutRest⟩ := List.exists_cons_of_ne_nil (List.splitOn_ne_nil separator rest)
      rw [List.splitOn_cons_eq_if_modifyHead, cutRest] at cut
      rw [cutRest] at ih
      by_cases divides : c = separator
      · rw [if_pos (beq_iff_eq.mpr divides)] at cut
        rcases List.mem_cons.mp cut with rfl | below
        · exact List.not_mem_nil
        · exact ih below
      · rw [if_neg (mt beq_iff_eq.mp divides), List.modifyHead_cons] at cut
        rcases List.mem_cons.mp cut with rfl | below
        · have apart : ¬ separator = c := fun same => divides same.symm
          simpa [apart] using ih List.mem_cons_self
        · exact ih (List.mem_cons_of_mem _ below)

namespace Path

/-- The key is not empty and spells one segment. -/
def IsPlain (key : String) : Prop :=
  key ≠ "" ∧ isDotted key = false

instance (key : String) : Decidable (IsPlain key) :=
  inferInstanceAs (Decidable (_ ∧ _))

def PlainKeys (keys : List String) : Prop :=
  keys.Nodup ∧ ∀ key ∈ keys, IsPlain key

instance (keys : List String) : Decidable (PlainKeys keys) :=
  inferInstanceAs (Decidable (_ ∧ _))

def extend (above : Option String) : List String → Option String
  | [] => above
  | key :: rest => extend (some (join above key)) rest

theorem extend_append (above : Option String) (front back : List String) :
    extend above (front ++ back) = extend (extend above front) back := by
  induction front generalizing above with
  | nil => rfl
  | cons key front ih => exact ih (some (join above key))

theorem exists_extend (above : Option String) {keys : List String} (filled : keys ≠ []) :
    ∃ path, extend above keys = some path := by
  induction keys generalizing above with
  | nil => exact absurd rfl filled
  | cons key rest ih =>
      cases rest with
      | nil => exact ⟨join above key, rfl⟩
      | cons next later => exact ih (some (join above key)) (by simp)

def isUndotted (keys : List String) : Bool :=
  keys.all fun key => !isDotted key

theorem is_undotted_iff {keys : List String} :
    isUndotted keys = true ↔ ∀ key ∈ keys, isDotted key = false := by
  simp [isUndotted]

theorem join_some_ne_empty {path : String} (key : String) (filled : path ≠ "") :
    join (some path) key ≠ "" := by
  intro equal
  have lengths := congrArg (fun text => text.toList.length) equal
  simp [to_list_join_some key filled] at lengths

theorem join_ne_empty (above : Option String) {key : String} (filled : key ≠ "") :
    join above key ≠ "" := by
  cases above with
  | none => exact filled
  | some path =>
      by_cases empty : path = ""
      · subst empty
        exact filled
      · exact join_some_ne_empty key empty

theorem segments_join (key : String) {path : String} (filled : path ≠ "") :
    segments (join (some path) key) = segments path ++ segments key := by
  simp only [segments, Text.cut, to_list_join_some key filled, List.splitOn_append_cons_self,
    List.map_append]

theorem segments_of_undotted {key : String} (undotted : isDotted key = false) :
    segments key = [key] := by
  have absent : separator ∉ key.toList := by simpa [isDotted] using undotted
  simp [segments, Text.cut, List.splitOn_eq_singleton absent]

/-- The path above is none, or a path whose segments are the given ones. -/
def Spells (above : Option String) (keys : List String) : Prop :=
  above = none ∧ keys = [] ∨ ∃ path, above = some path ∧ path ≠ "" ∧ segments path = keys

theorem spells_none : Spells none [] := .inl ⟨rfl, rfl⟩

theorem segments_join_of_spells {above : Option String} {front : List String} {key : String}
    (spelled : Spells above front) (plain : IsPlain key) :
    segments (join above key) = front ++ [key] := by
  rcases spelled with ⟨rfl, rfl⟩ | ⟨path, rfl, filled, same⟩
  · exact segments_of_undotted plain.2
  · rw [segments_join key filled, segments_of_undotted plain.2, same]

theorem spells_join {above : Option String} {front : List String} {key : String}
    (spelled : Spells above front) (plain : IsPlain key) :
    Spells (some (join above key)) (front ++ [key]) :=
  .inr ⟨join above key, rfl, join_ne_empty above plain.1,
    segments_join_of_spells spelled plain⟩

theorem spells_extend {above : Option String} {front keys : List String}
    (spelled : Spells above front) (plain : ∀ key ∈ keys, IsPlain key) :
    Spells (extend above keys) (front ++ keys) := by
  induction keys generalizing above front with
  | nil => simpa [extend] using spelled
  | cons key rest ih =>
      have step := ih (spells_join spelled (plain key (by simp)))
        (fun other member => plain other (by simp [member]))
      simpa [extend] using step

theorem segments_of_extend {keys : List String} {path : String}
    (plain : ∀ key ∈ keys, IsPlain key) (reached : extend none keys = some path) :
    segments path = keys := by
  have spelled := spells_extend spells_none plain
  rw [reached] at spelled
  rcases spelled with ⟨impossible, _⟩ | ⟨other, same, _, cut⟩
  · exact absurd impossible (by simp)
  · obtain rfl := Option.some.inj same
    simpa using cut

theorem segments_ne_nil (path : String) : segments path ≠ [] := by
  simp [segments, Text.cut, List.splitOn_ne_nil]

theorem segments_injective {left right : String} (same : segments left = segments right) :
    left = right := by
  have pieces : left.toList.splitOn separator = right.toList.splitOn separator :=
    (List.map_inj_right fun _ _ equal => String.ofList_injective equal).mp same
  apply String.toList_injective
  calc left.toList = List.intercalate [separator] (left.toList.splitOn separator) :=
        (List.intercalate_splitOn separator).symm
    _ = List.intercalate [separator] (right.toList.splitOn separator) := by rw [pieces]
    _ = right.toList := List.intercalate_splitOn separator

theorem is_undotted_segments (path : String) : isUndotted (segments path) = true := by
  rw [is_undotted_iff]
  intro key member
  obtain ⟨piece, cut, rfl⟩ := List.mem_map.mp member
  simpa [isDotted] using Text.not_mem_of_mem_split_on cut

/-- Segments that are all filled are a chain of keys that spells the path. -/
theorem extend_segments {path : String} (filled : ∀ key ∈ segments path, key ≠ "") :
    extend none (segments path) = some path := by
  obtain ⟨spelled, reached⟩ := exists_extend none (segments_ne_nil path)
  have undotted := is_undotted_iff.mp (is_undotted_segments path)
  have plain : ∀ key ∈ segments path, IsPlain key := fun key member =>
    ⟨filled key member, undotted key member⟩
  rw [reached, segments_injective (segments_of_extend plain reached)]

def IsWithin (path ancestor : String) : Prop :=
  path = ancestor ∨ isBelow path ancestor = true

theorem is_within_trans {path middle ancestor : String} (lower : IsWithin path middle)
    (upper : IsWithin middle ancestor) : IsWithin path ancestor := by
  rcases lower with rfl | lower
  · exact upper
  · rcases upper with rfl | upper
    · exact .inr lower
    · exact .inr (is_below_trans lower upper)

theorem is_below_join (key : String) {path : String} (filled : path ≠ "") :
    isBelow (join (some path) key) path = true :=
  (is_below_iff_join _ filled).mpr ⟨key, rfl⟩

theorem segments_prefix_of_is_within {path ancestor : String} (within : IsWithin path ancestor) :
    segments ancestor <+: segments path := by
  rcases within with rfl | below
  · exact List.prefix_refl _
  · obtain ⟨rest, continued⟩ := (is_below_iff path ancestor).mp below
    refine ⟨(rest.splitOn separator).map String.ofList, ?_⟩
    simp only [segments, Text.cut, continued, List.splitOn_append_cons_self, List.map_append]

/-- What lies within the places of two plain keys side by side can only be the same key's. -/
theorem eq_of_is_within_siblings {above : Option String} {front : List String}
    {left right path : String} (spelled : Spells above front)
    (leftPlain : IsPlain left) (rightPlain : IsPlain right)
    (withinLeft : IsWithin path (join above left))
    (withinRight : IsWithin path (join above right)) : left = right := by
  have leftPrefix := segments_prefix_of_is_within withinLeft
  have rightPrefix := segments_prefix_of_is_within withinRight
  rw [segments_join_of_spells spelled leftPlain] at leftPrefix
  rw [segments_join_of_spells spelled rightPlain] at rightPrefix
  have same := List.prefix_of_prefix_length_le leftPrefix rightPrefix (by simp)
  have equal := same.eq_of_length (by simp)
  simpa using equal

end Path

end ObjectShape
