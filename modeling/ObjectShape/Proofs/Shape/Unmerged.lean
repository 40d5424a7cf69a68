import ObjectShape.Proofs.Path.Plain
import ObjectShape.Proofs.Shape.Assembly

/-!
# Shapes without merged properties

If no declared property lies at or below the path of a later one, the table of the assembled shape
is the list of declared properties as it stands, and both the declared and the sorted order name
ancestors first. The verdict is then a statement about the declared properties alone.
-/

namespace ObjectShape.Shape

set_option autoImplicit false

variable {φ : Type}

/-- No declared property lies at or below the path of a later one. -/
def Ordered (declared : List (Property φ)) : Prop :=
  declared.Pairwise fun earlier later => ¬ Path.IsWithin earlier.path later.path

theorem paths_nodup {declared : List (Property φ)} (ordered : Ordered declared) :
    (declared.map Property.path).Nodup := by
  rw [List.Nodup, List.pairwise_map]
  exact ordered.imp fun apart same => apart (.inl same)

theorem collect_distinct (declared : List (Property φ)) (table : List (String × Property φ))
    (distinct : (Entries.keys table ++ declared.map Property.path).Nodup) :
    declared.foldl collect table = table ++ declared.map fun property => (property.path, property) := by
  induction declared generalizing table with
  | nil => simp
  | cons property rest ih =>
      have fresh : property.path ∉ Entries.keys table := by
        intro member
        exact (List.nodup_append.mp distinct).2.2 _ member _ List.mem_cons_self rfl
      have step : collect table property = table ++ [(property.path, property)] :=
        Entries.upsert_of_not_mem _ _ fresh
      have remaining : (Entries.keys (table ++ [(property.path, property)]) ++
          rest.map Property.path).Nodup := by
        simpa [Entries.keys] using distinct
      rw [List.foldl_cons, step, ih _ remaining]
      simp

theorem properties_of_ordered (sorted : Bool) {declared : List (Property φ)}
    (ordered : Ordered declared) :
    (ofProperties sorted declared).properties =
      declared.map fun property => (property.path, property.settle) := by
  have distinct : (Entries.keys ([] : List (String × Property φ)) ++
      declared.map Property.path).Nodup := paths_nodup ordered
  simp [ofProperties, collect_distinct declared [] distinct]

theorem keys_of_ordered (sorted : Bool) {declared : List (Property φ)}
    (ordered : Ordered declared) :
    (ofProperties sorted declared).keys.Perm (declared.map Property.path) := by
  have same := keys_of_properties_perm sorted declared
  rw [properties_of_ordered sorted ordered] at same
  simpa [Entries.keys, Function.comp_def] using same

theorem get_of_ordered {declared : List (Property φ)} (ordered : Ordered declared)
    {property : Property φ} (member : property ∈ declared) :
    Entries.get? property.path (declared.map fun property => (property.path, property.settle)) =
      some property.settle := by
  have distinct : (Entries.keys
      (declared.map fun property => (property.path, property.settle))).Nodup := by
    simpa [Entries.keys, Function.comp_def] using paths_nodup ordered
  exact (Entries.get?_eq_some_iff_mem distinct).mpr (List.mem_map.mpr ⟨property, member, rfl⟩)

theorem ancestors_first_of_ordered (sorted : Bool) {declared : List (Property φ)}
    (ordered : Ordered declared) : AncestorsFirst (ofProperties sorted declared).keys := by
  cases sorted with
  | true => exact sort_keys_ancestors_first _
  | false =>
      have keys : (ofProperties false declared).keys = declared.map Property.path := by
        change Entries.keys (ofProperties false declared).properties = _
        rw [properties_of_ordered false ordered]
        simp [Entries.keys, Function.comp_def]
      rw [keys, AncestorsFirst, List.pairwise_map]
      exact ordered.imp fun apart => Bool.eq_false_iff.mpr fun below => apart (.inr below)

theorem depth_of_path (sorted : Bool) {declared : List (Property φ)} (ordered : Ordered declared)
    {property : Property φ} (member : property ∈ declared) :
    Path.depth property.path ≤ (ofProperties sorted declared).depth := by
  apply depth_of_key
  rw [(keys_of_ordered sorted ordered).mem_iff]
  exact List.mem_map_of_mem member

variable [Host φ]

def SettledBy (declared : List (Property φ)) (outline : List (String × Value φ))
    (property : Property φ) : Prop :=
  (∃ other ∈ declared, Path.isBelow property.path other.path = true ∧
      other.settle.Covers (Value.partAt outline other.path)) ∨
    property.settle.Meets (Value.partAt outline property.path)

theorem settled_among_iff {declared : List (Property φ)} (ordered : Ordered declared)
    (keys : List String) (same : keys.Perm (declared.map Property.path))
    (outline : List (String × Value φ)) {property : Property φ} (member : property ∈ declared) :
    SettledAmong (declared.map fun property => (property.path, property.settle)) outline keys
        property.path ↔ SettledBy declared outline property := by
  unfold SettledAmong SettledBy
  rw [meets_at_unique (get_of_ordered ordered member)]
  apply or_congr_left
  constructor
  · intro settled
    obtain ⟨above, among, below, found, covers⟩ := settled
    obtain ⟨other, inDeclared, rfl⟩ := List.mem_map.mp (same.mem_iff.mp among)
    rw [get_of_ordered ordered inDeclared] at covers
    exact ⟨other, inDeclared, below, Option.some.inj covers.1 ▸ covers.2⟩
  · intro settled
    obtain ⟨other, inDeclared, below, covers⟩ := settled
    refine ⟨other.path, same.mem_iff.mpr (List.mem_map_of_mem inDeclared), below, other.settle, ?_⟩
    exact ⟨get_of_ordered ordered inDeclared, covers⟩

theorem assembled_accepts_iff (sorted : Bool) {declared : List (Property φ)}
    (ordered : Ordered declared) (value : Value φ) :
    (ofProperties sorted declared).accepts value = true ↔
      value.isObjectLike = true ∧ ∀ property ∈ declared,
        SettledBy declared (value.outline (ofProperties sorted declared).depth) property := by
  have same := keys_of_ordered sorted ordered
  rw [accepts_iff_settled_among _ value (fun key member => property_of_key member)
    (ancestors_first_of_ordered sorted ordered), properties_of_ordered sorted ordered]
  have enabled : (ofProperties sorted declared).enabled = true := rfl
  simp only [enabled, true_and]
  apply and_congr_right
  intro _
  constructor
  · intro settled property member
    have key := same.mem_iff.mpr (List.mem_map_of_mem (f := Property.path) member)
    exact (settled_among_iff ordered _ same _ member).mp (settled property.path key)
  · intro settled key among
    obtain ⟨property, member, rfl⟩ := List.mem_map.mp (same.mem_iff.mp among)
    exact (settled_among_iff ordered _ same _ member).mpr (settled property member)

/-- Properties that lie apart do not settle each other. -/
theorem settled_by_append {own later : List (Property φ)} (outline : List (String × Value φ))
    (apart : ∀ left ∈ own, ∀ right ∈ later,
      ¬ Path.IsWithin left.path right.path ∧ ¬ Path.IsWithin right.path left.path) :
    (∀ property ∈ own ++ later, SettledBy (own ++ later) outline property) ↔
      (∀ property ∈ own, SettledBy own outline property) ∧
        ∀ property ∈ later, SettledBy later outline property := by
  have ownSide : ∀ property ∈ own,
      (SettledBy (own ++ later) outline property ↔ SettledBy own outline property) := by
    intro property member
    apply or_congr_left
    constructor
    · intro settled
      obtain ⟨other, among, below, covers⟩ := settled
      rcases List.mem_append.mp among with here | there
      · exact ⟨other, here, below, covers⟩
      · exact absurd (.inr below) (apart property member other there).1
    · intro settled
      obtain ⟨other, among, below, covers⟩ := settled
      exact ⟨other, List.mem_append_left _ among, below, covers⟩
  have laterSide : ∀ property ∈ later,
      (SettledBy (own ++ later) outline property ↔ SettledBy later outline property) := by
    intro property member
    apply or_congr_left
    constructor
    · intro settled
      obtain ⟨other, among, below, covers⟩ := settled
      rcases List.mem_append.mp among with here | there
      · exact absurd (.inr below) (apart other here property member).2
      · exact ⟨other, there, below, covers⟩
    · intro settled
      obtain ⟨other, among, below, covers⟩ := settled
      exact ⟨other, List.mem_append_right _ among, below, covers⟩
  constructor
  · intro settled
    exact ⟨fun property member => (ownSide property member).mp
        (settled property (List.mem_append_left _ member)),
      fun property member => (laterSide property member).mp
        (settled property (List.mem_append_right _ member))⟩
  · intro settled property among
    rcases List.mem_append.mp among with here | there
    · exact (ownSide property here).mpr (settled.1 property here)
    · exact (laterSide property there).mpr (settled.2 property there)

theorem settled_by_singleton (outline : List (String × Value φ)) (property : Property φ) :
    SettledBy [property] outline property ↔
      property.settle.Meets (Value.partAt outline property.path) := by
  constructor
  · intro settled
    rcases settled with shadowed | met
    · obtain ⟨other, among, below, _⟩ := shadowed
      rw [List.mem_singleton.mp among, Path.is_below_irrefl] at below
      exact absurd below Bool.false_ne_true
    · exact met
  · exact fun met => .inr met

/-- A property above all others has to be met; the others count unless it settles them. -/
theorem settled_by_cons (top : Property φ) {inner : List (Property φ)}
    (outline : List (String × Value φ))
    (below : ∀ property ∈ inner, Path.isBelow property.path top.path = true) :
    (∀ property ∈ top :: inner, SettledBy (top :: inner) outline property) ↔
      top.settle.Meets (Value.partAt outline top.path) ∧
        (top.settle.Covers (Value.partAt outline top.path) ∨
          ∀ property ∈ inner, SettledBy inner outline property) := by
  have notBelow : ∀ other ∈ top :: inner, Path.isBelow top.path other.path ≠ true := by
    intro other among lower
    have loop : Path.isBelow top.path top.path = true := by
      rcases List.mem_cons.mp among with same | deeper
      · exact same ▸ lower
      · exact Path.is_below_trans lower (below other deeper)
    rw [Path.is_below_irrefl] at loop
    exact Bool.false_ne_true loop
  have topSide : SettledBy (top :: inner) outline top ↔
      top.settle.Meets (Value.partAt outline top.path) := by
    apply or_iff_right
    intro shadowed
    obtain ⟨other, among, lower, _⟩ := shadowed
    exact notBelow other among lower
  have innerSide : ∀ property ∈ inner, (SettledBy (top :: inner) outline property ↔
      top.settle.Covers (Value.partAt outline top.path) ∨ SettledBy inner outline property) := by
    intro property member
    have lower := below property member
    simp only [SettledBy, List.mem_cons, or_and_right, exists_or, exists_eq_left, lower, true_and,
      or_assoc]
  rw [List.forall_mem_cons, topSide]
  apply and_congr_right
  intro _
  constructor
  · intro settled
    by_cases covers : top.settle.Covers (Value.partAt outline top.path)
    · exact .inl covers
    · right
      intro property member
      exact ((innerSide property member).mp (settled property member)).resolve_left covers
  · intro settled property member
    rcases settled with covers | settled
    · exact (innerSide property member).mpr (.inl covers)
    · exact (innerSide property member).mpr (.inr (settled property member))

end ObjectShape.Shape
