import Mathlib.Logic.Relation
import ObjectShape.Proofs.Declaration.Placement
import ObjectShape.Proofs.Shape.Merging

/-!
# Well-formed shapes

What holds of every shape that compiling yields, and of the shapes nested in it at any depth. A
nested shape is itself built from a declaration that the outer one lists, so what holds of every
built shape holds of all of them.
-/

namespace ObjectShape

set_option autoImplicit false

variable {φ : Type}

namespace Shape

def Nests (shape inner : Shape φ) : Prop :=
  ∃ entry ∈ shape.properties, .nested inner ∈ entry.2.choices

/-- A shape put together from at least one property: its keys are those of its table in some order,
and its depth is the greatest depth of a key. -/
structure IsAssembled (shape : Shape φ) : Prop where
  enabled : shape.enabled = true
  inhabited : shape.properties ≠ []
  distinct : shape.keys.Nodup
  covering : shape.keys.Perm (Entries.keys shape.properties)
  path : ∀ entry ∈ shape.properties, entry.2.path = entry.1
  choices : ∀ entry ∈ shape.properties, entry.2.choices ≠ []
  required : ∀ entry ∈ shape.properties,
    entry.2.required = true ↔ .named .undefined ∉ entry.2.choices
  deepest : ∃ key ∈ shape.keys, Path.depth key = shape.depth
  bounded : ∀ key ∈ shape.keys, Path.depth key ≤ shape.depth

def WellFormed (shape : Shape φ) : Prop :=
  shape = disabled ∨ shape.IsAssembled

theorem keys_of_properties_ne_nil (sorted : Bool) {declared : List (Property φ)}
    (filled : declared ≠ []) : (ofProperties sorted declared).keys ≠ [] := by
  obtain ⟨property, rest, rfl⟩ := List.exists_cons_of_ne_nil filled
  exact List.ne_nil_of_mem (mem_keys_of_properties_iff.mpr ⟨property, List.mem_cons_self, rfl⟩)

theorem deepest_of_properties (sorted : Bool) {declared : List (Property φ)}
    (filled : declared ≠ []) :
    ∃ key ∈ (ofProperties sorted declared).keys,
      Path.depth key = (ofProperties sorted declared).depth := by
  have keys := keys_of_properties_perm sorted declared
  rw [depth_eq_max]
  cases deepest : ((Entries.keys (ofProperties sorted declared).properties).map Path.depth).max? with
  | none =>
      rw [List.max?_eq_none_iff, List.map_eq_nil_iff] at deepest
      rw [deepest] at keys
      exact absurd keys.eq_nil (keys_of_properties_ne_nil sorted filled)
  | some depth =>
      obtain ⟨key, member, same⟩ := List.mem_map.mp (List.max?_mem deepest)
      exact ⟨key, keys.mem_iff.mpr member, same⟩

/-- Properties with choices are put together to a well-formed shape, whatever their paths are. -/
theorem assembled_of_properties (sorted : Bool) {declared : List (Property φ)}
    (filled : declared ≠ []) (chosen : ∀ property ∈ declared, property.choices ≠ []) :
    (ofProperties sorted declared).IsAssembled where
  enabled := rfl
  inhabited := by
    intro empty
    have keys := keys_of_properties_perm sorted declared
    rw [empty] at keys
    exact keys_of_properties_ne_nil sorted filled keys.eq_nil
  distinct := keys_of_properties_nodup sorted declared
  covering := keys_of_properties_perm sorted declared
  path := fun _ member => path_of_entry member
  choices := fun _ member => choices_of_entry_ne_nil chosen member
  required := by
    intro entry member
    obtain ⟨first, later, _, same⟩ := entry_of_properties member
    rw [same]
    exact Property.settle_required_iff _
  deepest := deepest_of_properties sorted filled
  bounded := fun _ member => depth_of_key member

/-- Each declared property comes from a placed member. -/
theorem member_of_laid_out {policy : EmptyPolicy} {label above : Option String}
    {members : List (String × Member φ)} {declared : List (Property φ)}
    (laidOut : layOut policy label above members = .ok declared) {property : Property φ}
    (laid : property ∈ declared) :
    ∃ entry ∈ placements above members, property.path = entry.1 ∧
      choicesOf policy (Path.join label entry.1) entry.2 = .ok property.choices := by
  rw [lay_out_eq_map_m, map_m_eq_ok_iff] at laidOut
  obtain ⟨entry, among, made⟩ := exists_of_forall₂ laidOut laid
  rw [propertyOf, bind_eq_ok_iff] at made
  obtain ⟨choices, chosen, same⟩ := made
  rw [← pure_eq_ok_iff.mp same]
  exact ⟨entry, among, rfl, chosen⟩

theorem laid_out_ne_nil {policy : EmptyPolicy} {label above : Option String}
    {members : List (String × Member φ)} {declared : List (Property φ)}
    (laidOut : layOut policy label above members = .ok declared) (filled : members ≠ []) :
    declared ≠ [] := by
  rw [lay_out_eq_map_m, map_m_eq_ok_iff] at laidOut
  intro empty
  rw [empty, List.forall₂_nil_right_iff] at laidOut
  exact placements_ne_nil above filled laidOut

theorem well_formed_of_build {policy : EmptyPolicy} {label : Option String} {sorted : Bool}
    {declaration : Declaration φ} {shape : Shape φ}
    (built : build policy label sorted declaration = .ok shape) : shape.WellFormed := by
  obtain ⟨members⟩ := declaration
  rcases build_cases built with ⟨_, _, rfl⟩ | ⟨filled, declared, laidOut, rfl⟩
  · exact .inl rfl
  · refine .inr (assembled_of_properties sorted (laid_out_ne_nil laidOut filled) ?_)
    intro property laid
    obtain ⟨entry, _, _, chosen⟩ := member_of_laid_out laidOut laid
    exact choices_of_ne_nil chosen

/-- The step: a shape nested in a built one is built from a declaration that is listed there. -/
theorem built_of_nests {policy : EmptyPolicy} {label : Option String} {sorted : Bool}
    {declaration : Declaration φ} {shape inner : Shape φ}
    (built : build policy label sorted declaration = .ok shape) (nests : shape.Nests inner) :
    ∃ listed place, declaration.Lists listed ∧
      build policy (some place) false listed = .ok inner := by
  obtain ⟨members⟩ := declaration
  obtain ⟨entry, member, chosen⟩ := nests
  rcases build_cases built with ⟨_, _, rfl⟩ | ⟨_, declared, laidOut, rfl⟩
  · exact absurd member (by simp [disabled])
  · rcases choice_of_entry member chosen with undefined | ⟨property, laid, _, own⟩
    · exact absurd undefined (by simp)
    · obtain ⟨member, among, _, resolved⟩ := member_of_laid_out laidOut laid
      obtain ⟨listed, type, made⟩ := nested_of_choices_of resolved own
      exact ⟨listed, _, ⟨member, among, type⟩, made⟩

theorem built_of_reached {policy : EmptyPolicy} {label : Option String} {sorted : Bool}
    {declaration : Declaration φ} {shape inner : Shape φ}
    (built : build policy label sorted declaration = .ok shape)
    (reached : Relation.ReflTransGen Nests shape inner) :
    ∃ deeper place sortedThere, Relation.ReflTransGen Declaration.Lists declaration deeper ∧
      build policy place sortedThere deeper = .ok inner := by
  induction reached with
  | refl => exact ⟨declaration, label, sorted, .refl, built⟩
  | tail _ nests ih =>
      obtain ⟨deeper, place, sortedThere, within, made⟩ := ih
      obtain ⟨listed, further, lists, inside⟩ := built_of_nests made nests
      exact ⟨listed, some further, false, within.tail lists, inside⟩

theorem keys_of_compiled_ascending {policy : EmptyPolicy} {declaration : Declaration φ}
    {shape : Shape φ} (compiled : declaration.compile policy = .ok shape) :
    shape.keys.Pairwise (· < ·) := by
  obtain ⟨members⟩ := declaration
  rcases build_cases compiled with ⟨_, _, rfl⟩ | ⟨_, declared, _, rfl⟩
  · exact List.Pairwise.nil
  · have ascending := sort_keys_ascending (Entries.keys (ofProperties true declared).properties)
    exact (ascending.and (keys_of_properties_nodup true declared)).imp fun apart =>
      Std.lt_of_le_of_ne apart.1 apart.2

/-- The key `a.b` is declared twice, the second time inside `a` and optional, and two of the types of
`c` are declarations of their own, one of them empty. -/
def repeated : Declaration Empty :=
  ⟨[("c", .anyOf [.named .null, .inline ⟨[]⟩, .inline ⟨[("y", .single (.named .string))]⟩]),
    ("a.b", .single (.named .string)),
    ("a", .nested true [] ⟨[("b", .record false [.named .bigint] [])]⟩)]⟩

def repeatedPart : Shape Empty :=
  { properties := [("y", ⟨"y", true, [.named .string], []⟩)]
    keys := ["y"]
    enabled := true
    depth := 1 }

def repeatedShape : Shape Empty :=
  { properties :=
      [("c", ⟨"c", true, [.named .null, .nested disabled, .nested repeatedPart], []⟩),
        ("a.b", ⟨"a.b", false, [.named .string, .named .bigint, .named .undefined], []⟩),
        ("a", ⟨"a", true, [.named .object], []⟩)]
    keys := ["a", "a.b", "c"]
    enabled := true
    depth := 2 }

/-- A compiled shape and all shapes nested in it are well formed; the outermost one names its keys
in ascending order. -/
theorem compiled_well_formed (policy : EmptyPolicy) (declaration : Declaration φ) (shape : Shape φ)
    (compiled : declaration.compile policy = .ok shape) :
    (∀ inner, Relation.ReflTransGen Nests shape inner → inner.WellFormed) ∧
      shape.keys.Pairwise (· < ·) := by
  refine ⟨fun inner reached => ?_, keys_of_compiled_ascending compiled⟩
  obtain ⟨_, _, _, _, built⟩ := built_of_reached compiled reached
  exact well_formed_of_build built

theorem repeated_well_formed :
    repeated.compile .disable = .ok repeatedShape ∧ repeatedShape.WellFormed ∧
      repeatedPart.WellFormed ∧ repeatedShape.keys.Pairwise (· < ·) := by
  have compiled : repeated.compile .disable = .ok repeatedShape := by cbv
  obtain ⟨throughout, ascending⟩ :=
    compiled_well_formed .disable repeated repeatedShape compiled
  have nests : repeatedShape.Nests repeatedPart := ⟨_, List.mem_cons_self, by simp⟩
  exact ⟨compiled, throughout _ .refl, throughout _ (.single nests), ascending⟩

end Shape

end ObjectShape
