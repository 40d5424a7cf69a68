import ObjectShape.Proofs.Path.Order
import ObjectShape.Proofs.Shape.Matching

/-!
# The verdict without the walk

The walk over the keys stops at the first failure and passes over keys below one it has settled. Its
verdict says of each key that the part there is accepted, or that an earlier key settles it. If the
keys name every ancestor before what lies below it, then earlier need not be said, and the order of
the keys no longer matters.
-/

namespace ObjectShape.Shape

set_option autoImplicit false

variable {φ : Type} [Host φ]

theorem forall_split_cons {α : Type} (first : α) (rest : List α)
    (holds : List α → α → Prop) :
    (∀ earlier item later, first :: rest = earlier ++ item :: later → holds earlier item) ↔
      holds [] first ∧
        ∀ earlier item later, rest = earlier ++ item :: later → holds (first :: earlier) item := by
  constructor
  · intro all
    exact ⟨all [] first rest rfl, fun earlier item later split =>
      all (first :: earlier) item later (by rw [split]; rfl)⟩
  · intro settled earlier item later split
    obtain ⟨head, tail⟩ := settled
    cases earlier with
    | nil =>
        obtain ⟨rfl, rfl⟩ := List.cons.inj split
        exact head
    | cons other earlier =>
        obtain ⟨rfl, remaining⟩ := List.cons.inj split
        exact tail earlier item later remaining

/-- The verdict at one key: the part there is accepted, or one of the keys settles it. -/
def SettledAmong (properties : List (String × Property φ)) (outline : List (String × Value φ))
    (others : List String) (key : String) : Prop :=
  (∃ above ∈ others, Path.isBelow key above = true ∧ CoversAt properties outline above) ∨
    MeetsAt properties outline key

theorem settled_among_mono {properties : List (String × Property φ)}
    {outline : List (String × Value φ)} {fewer more : List String} {key : String}
    (subset : fewer ⊆ more) (settled : SettledAmong properties outline fewer key) :
    SettledAmong properties outline more key := by
  rcases settled with shadowed | met
  · obtain ⟨above, member, covered⟩ := shadowed
    exact .inl ⟨above, subset member, covered⟩
  · exact .inr met

theorem covers_at_unique {properties : List (String × Property φ)}
    {outline : List (String × Value φ)} {key : String} {property : Property φ} {choice : Choice φ}
    (found : Entries.get? key properties = some property)
    (matched : property.matching (Value.partAt outline key) = some choice) :
    CoversAt properties outline key ↔ choice.typeName? ≠ some .object := by
  constructor
  · intro settled
    obtain ⟨other, same, covering, also, different⟩ := settled
    obtain rfl := Option.some.inj (found.symm.trans same)
    obtain rfl := Option.some.inj (matched.symm.trans also)
    exact different
  · exact fun different => ⟨property, found, choice, matched, different⟩

theorem meets_at_unique {properties : List (String × Property φ)}
    {outline : List (String × Value φ)} {key : String} {property : Property φ}
    (found : Entries.get? key properties = some property) :
    MeetsAt properties outline key ↔ property.Meets (Value.partAt outline key) := by
  constructor
  · intro settled
    obtain ⟨other, same, met⟩ := settled
    obtain rfl := Option.some.inj (found.symm.trans same)
    exact met
  · exact fun met => ⟨property, found, met⟩

/-- One step of the walk, as it turns on what the property at the key makes of the part there. -/
theorem visit_keys_step (properties : List (String × Property φ))
    (outline : List (String × Value φ)) (satisfied : List String) (key : String)
    (rest : List String) :
    (visitKeys (matchers properties) outline satisfied (key :: rest)).result =
      if satisfied.any (Path.isBelow key) then
        (visitKeys (matchers properties) outline satisfied rest).result
      else
        match Entries.get? key properties with
        | none => (visitKeys (matchers properties) outline satisfied rest).result
        | some property =>
            if property.required && (Value.partAt outline key).isUndefined then false
            else
              match property.matching (Value.partAt outline key) with
              | none => false
              | some choice =>
                  if choice.typeName? = some .object then
                    (visitKeys (matchers properties) outline satisfied rest).result
                  else (visitKeys (matchers properties) outline (satisfied ++ [key]) rest).result := by
  rw [visitKeys, get_matchers]
  cases satisfied.any (Path.isBelow key) with
  | true => rfl
  | false =>
      cases Entries.get? key properties with
      | none => rfl
      | some property =>
          simp only [Bool.false_eq_true, if_false, Option.map_some, Property.matcher_eq,
            Property.matching]
          cases property.required && (Value.partAt outline key).isUndefined with
          | true => rfl
          | false =>
              simp only [Bool.false_eq_true, if_false, Traced.result_bind]
              cases (property.examine (Value.partAt outline key)).result with
              | none => rfl
              | some hit => by_cases object : hit.2.typeName? = some .object <;> simp [object]

/-- A key that no satisfied key lies above has to be met, and joins the satisfied keys if it settles
what lies below it. -/
theorem visit_keys_cons (properties : List (String × Property φ))
    (outline : List (String × Value φ)) (satisfied : List String) (key : String)
    (rest : List String) {property : Property φ}
    (found : Entries.get? key properties = some property)
    (reached : satisfied.any (Path.isBelow key) = false) :
    (visitKeys (matchers properties) outline satisfied (key :: rest)).result = true ↔
      MeetsAt properties outline key ∧
        (¬ CoversAt properties outline key ∧
            (visitKeys (matchers properties) outline satisfied rest).result = true ∨
          CoversAt properties outline key ∧
            (visitKeys (matchers properties) outline (satisfied ++ [key]) rest).result = true) := by
  rw [visit_keys_step, found, reached, meets_at_unique found]
  simp only [Bool.false_eq_true, if_false]
  cases missing : property.required && (Value.partAt outline key).isUndefined with
  | true =>
      obtain ⟨required, absent⟩ := Bool.and_eq_true_iff.mp missing
      simp [Property.Meets, required, absent]
  | false =>
      have present : property.required = true →
          (Value.partAt outline key).isUndefined = false := by
        intro required
        simpa [required] using missing
      simp only [Bool.false_eq_true, if_false]
      cases matched : property.matching (Value.partAt outline key) with
      | none => simp [Property.Meets, matched]
      | some choice =>
          have met : property.Meets (Value.partAt outline key) :=
            ⟨present, by rw [matched]; rfl⟩
          have covers := covers_at_unique found matched
          by_cases object : choice.typeName? = some .object <;> simp [met, covers, object]

/-- Invariant of the walk after the seen keys: a path lies below one of the satisfied keys exactly
when a seen key settles it. A seen key that was passed over needs no record, because whatever lies
below it also lies below the satisfied key above it. -/
def Tracks (properties : List (String × Property φ)) (outline : List (String × Value φ))
    (seen satisfied : List String) : Prop :=
  ∀ key, satisfied.any (Path.isBelow key) = true ↔
    ∃ above ∈ seen, Path.isBelow key above = true ∧ CoversAt properties outline above

theorem tracks_nil (properties : List (String × Property φ))
    (outline : List (String × Value φ)) : Tracks properties outline [] [] := by
  intro key
  simp

theorem seen_append_iff {seen : List String} {first : String} {holds : String → Prop} :
    (∃ above ∈ seen ++ [first], holds above) ↔ (∃ above ∈ seen, holds above) ∨ holds first := by
  simp only [List.mem_append, List.mem_singleton, or_and_right, exists_or, exists_eq_left]

theorem tracks_passed_over {properties : List (String × Property φ)}
    {outline : List (String × Value φ)} {seen satisfied : List String} {first : String}
    (tracks : Tracks properties outline seen satisfied)
    (passed : satisfied.any (Path.isBelow first) = true) :
    Tracks properties outline (seen ++ [first]) satisfied := by
  intro key
  rw [tracks key, seen_append_iff]
  constructor
  · exact .inl
  · intro settled
    rcases settled with before | ⟨below, _⟩
    · exact before
    · obtain ⟨higher, before, lower, covers⟩ := (tracks first).mp passed
      exact ⟨higher, before, Path.is_below_trans below lower, covers⟩

theorem tracks_not_covering {properties : List (String × Property φ)}
    {outline : List (String × Value φ)} {seen satisfied : List String} {first : String}
    (tracks : Tracks properties outline seen satisfied)
    (uncovered : ¬ CoversAt properties outline first) :
    Tracks properties outline (seen ++ [first]) satisfied := by
  intro key
  rw [tracks key, seen_append_iff]
  exact (or_iff_left fun settled => uncovered settled.2).symm

theorem tracks_covering {properties : List (String × Property φ)}
    {outline : List (String × Value φ)} {seen satisfied : List String} {first : String}
    (tracks : Tracks properties outline seen satisfied)
    (covers : CoversAt properties outline first) :
    Tracks properties outline (seen ++ [first]) (satisfied ++ [first]) := by
  intro key
  have last : [first].any (Path.isBelow key) = true ↔
      Path.isBelow key first = true ∧ CoversAt properties outline first := by
    simp [covers]
  rw [List.any_append, Bool.or_eq_true, tracks key, seen_append_iff, last]

/-- The verdict of the walk, for any order of the keys. -/
theorem visit_keys_result_iff {properties : List (String × Property φ)}
    {outline : List (String × Value φ)} {seen satisfied : List String} (keys : List String)
    (tracks : Tracks properties outline seen satisfied)
    (known : ∀ key ∈ keys, (Entries.get? key properties).isSome = true) :
    (visitKeys (matchers properties) outline satisfied keys).result = true ↔
      ∀ earlier key later, keys = earlier ++ key :: later →
        SettledAmong properties outline (seen ++ earlier) key := by
  -- Along the keys still to visit; the seen ones grow with each step, and `Tracks` goes along.
  induction keys generalizing seen satisfied with
  | nil => simp [visitKeys]
  | cons first rest ih =>
      have knownRest : ∀ key ∈ rest, (Entries.get? key properties).isSome = true :=
        fun key member => known key (by simp [member])
      have split := forall_split_cons first rest fun earlier key =>
        SettledAmong properties outline (seen ++ earlier) key
      rw [List.append_nil] at split
      rw [split]
      cases passed : satisfied.any (Path.isBelow first) with
      | true =>
          have settled : SettledAmong properties outline seen first := .inl ((tracks first).mp passed)
          rw [visitKeys, passed, if_pos rfl, ih (tracks_passed_over tracks passed) knownRest]
          simp only [settled, true_and, List.append_assoc, List.singleton_append]
      | false =>
          obtain ⟨property, found⟩ := Option.isSome_iff_exists.mp (known first (by simp))
          have settled : SettledAmong properties outline seen first ↔
              MeetsAt properties outline first := by
            rw [SettledAmong, ← tracks first, passed]
            simp
          rw [visit_keys_cons properties outline satisfied first rest found passed, settled]
          by_cases covers : CoversAt properties outline first
          · simp only [covers, not_true_eq_false, false_and, true_and, false_or,
              ih (tracks_covering tracks covers) knownRest, List.append_assoc,
              List.singleton_append]
          · simp only [covers, not_false_eq_true, false_and, true_and, or_false,
              ih (tracks_not_covering tracks covers) knownRest, List.append_assoc,
              List.singleton_append]

/-- Each key is settled by the keys before it, or met on its own. -/
def SettledInTurn (properties : List (String × Property φ)) (outline : List (String × Value φ))
    (keys : List String) : Prop :=
  ∀ earlier key later, keys = earlier ++ key :: later → SettledAmong properties outline earlier key

/-- The verdict of a shape whose keys all have properties, for any order of the keys. -/
theorem accepts_iff_settled_in_turn (shape : Shape φ) (value : Value φ)
    (known : ∀ key ∈ shape.keys, (shape.property? key).isSome = true) :
    shape.accepts value = true ↔
      shape.enabled = true ∧ value.isObjectLike = true ∧
        SettledInTurn shape.properties (value.outline shape.depth) shape.keys := by
  have verdict := visit_keys_result_iff shape.keys
    (tracks_nil shape.properties (value.outline shape.depth)) known
  rw [accepts_eq, Bool.and_eq_true, Bool.and_eq_true, verdict, and_assoc]
  rfl

theorem settled_among_of_in_turn {properties : List (String × Property φ)}
    {outline : List (String × Value φ)} {keys : List String}
    (settled : SettledInTurn properties outline keys) (key : String) (member : key ∈ keys) :
    SettledAmong properties outline keys key := by
  obtain ⟨earlier, later, split⟩ := List.append_of_mem member
  have here := settled earlier key later split
  rw [split]
  exact settled_among_mono (List.subset_append_left earlier _) here

/-- No key lies below a later one. -/
def AncestorsFirst (keys : List String) : Prop :=
  keys.Pairwise fun earlier later => Path.isBelow earlier later = false

/-- Where ancestors come first, whether a key settles another does not depend on their places. -/
theorem settled_in_turn_iff {properties : List (String × Property φ)}
    {outline : List (String × Value φ)} {keys : List String} (ordered : AncestorsFirst keys) :
    SettledInTurn properties outline keys ↔
      ∀ key ∈ keys, SettledAmong properties outline keys key := by
  constructor
  · exact settled_among_of_in_turn
  · intro settled earlier key later split
    rcases settled key (by simp [split]) with shadowed | met
    · obtain ⟨above, member, below, covers⟩ := shadowed
      refine .inl ⟨above, ?_, below, covers⟩
      rw [split] at member ordered
      have afterKey := (List.pairwise_cons.mp (List.pairwise_append.mp ordered).2.1).1
      rcases List.mem_append.mp member with before | rest
      · exact before
      · rcases List.mem_cons.mp rest with same | after
        · rw [same, Path.is_below_irrefl] at below
          exact absurd below Bool.false_ne_true
        · rw [afterKey above after] at below
          exact absurd below Bool.false_ne_true
    · exact .inr met

/-- The verdict of a shape whose keys name ancestors first says nothing about their order. -/
theorem accepts_iff_settled_among (shape : Shape φ) (value : Value φ)
    (known : ∀ key ∈ shape.keys, (shape.property? key).isSome = true)
    (ordered : AncestorsFirst shape.keys) :
    shape.accepts value = true ↔
      shape.enabled = true ∧ value.isObjectLike = true ∧
        ∀ key ∈ shape.keys,
          SettledAmong shape.properties (value.outline shape.depth) shape.keys key := by
  rw [accepts_iff_settled_in_turn shape value known, settled_in_turn_iff ordered]

end ObjectShape.Shape
