import Mathlib.Data.List.Infix
import Mathlib.Data.List.Nodup
import ObjectShape.Class

/-!
# Lineages

The lineage of a class is the class and those it inherits from, up to a root. Among the classes that
declarations make, the serial numbers tell all of them apart, so a class inherits from another
exactly if the other's lineage ends its own. Inheritance is then what ending is for lists: a partial
order in which all that end one list are comparable.
-/

namespace ObjectShape.Class

set_option autoImplicit false

def lineage : Class → List Class
  | .root serial name => [.root serial name]
  | .sub serial name parent => .sub serial name parent :: lineage parent

theorem lineage_eq_cons (heir : Class) : ∃ above, heir.lineage = heir :: above := by
  cases heir with
  | root serial name => exact ⟨[], rfl⟩
  | sub serial name parent => exact ⟨parent.lineage, rfl⟩

theorem mem_lineage_self (heir : Class) : heir ∈ heir.lineage := by
  obtain ⟨above, shape⟩ := lineage_eq_cons heir
  rw [shape]
  exact List.mem_cons_self

theorem lineage_injective {left right : Class} (same : left.lineage = right.lineage) :
    left = right := by
  obtain ⟨above, shape⟩ := lineage_eq_cons left
  obtain ⟨above', shape'⟩ := lineage_eq_cons right
  rw [shape, shape'] at same
  exact (List.cons.inj same).1

/-- A class inherits from whatever has the serial number of a class of its lineage. -/
theorem is_a_iff_exists (ancestor heir : Class) :
    isA ancestor heir = true ↔ ∃ member ∈ heir.lineage, member.same ancestor = true := by
  induction heir with
  | root serial name => simp [isA, lineage, same, Class.serial]
  | sub serial name parent ih => simp [isA, lineage, same, Class.serial, ih]

theorem suffix_of_mem_lineage {ancestor heir : Class} (member : ancestor ∈ heir.lineage) :
    ancestor.lineage <:+ heir.lineage := by
  induction heir with
  | root serial name =>
      obtain rfl := List.mem_singleton.mp member
      exact List.suffix_refl _
  | sub serial name parent ih =>
      rcases List.mem_cons.mp member with rfl | above
      · exact List.suffix_refl _
      · exact (ih above).trans (List.suffix_cons _ _)

/-- The serial numbers of declared classes count them. -/
theorem serials_of_declared {classes : List Class} (declared : Declared classes) :
    classes.map Class.serial = List.range classes.length := by
  induction declared with
  | none => rfl
  | root name earlier ih =>
      simp [ih, declare, Class.serial, List.range_succ]
  | sub name earlier member ih =>
      simp [ih, declare, Class.serial, List.range_succ]

/-- Declared classes with one serial number are one class. -/
theorem same_iff_of_declared {classes : List Class} (declared : Declared classes)
    {left right : Class} (leftMember : left ∈ classes) (rightMember : right ∈ classes) :
    left.same right = true ↔ left = right := by
  have distinct : (classes.map Class.serial).Nodup := by
    rw [serials_of_declared declared]
    exact List.nodup_range
  rw [same, beq_iff_eq]
  constructor
  · exact List.inj_on_of_nodup_map distinct leftMember rightMember
  · exact congrArg Class.serial

theorem mem_of_mem_lineage {classes : List Class} (declared : Declared classes)
    {heir : Class} (member : heir ∈ classes) {ancestor : Class} (above : ancestor ∈ heir.lineage) :
    ancestor ∈ classes := by
  induction declared generalizing heir with
  | none => exact absurd member List.not_mem_nil
  | @root earlier name _ ih =>
      rcases List.mem_append.mp member with old | new
      · exact List.mem_append_left _ (ih old above)
      · obtain rfl := List.mem_singleton.mp new
        obtain rfl := List.mem_singleton.mp above
        exact member
  | @sub earlier name parent _ parentMember ih =>
      rcases List.mem_append.mp member with old | new
      · exact List.mem_append_left _ (ih old above)
      · obtain rfl := List.mem_singleton.mp new
        rcases List.mem_cons.mp above with rfl | higher
        · exact member
        · exact List.mem_append_left _ (ih parentMember higher)

/-- Among declared classes, to inherit is to have the other's lineage at the end of one's own. -/
theorem is_a_iff_suffix {classes : List Class} (declared : Declared classes)
    {ancestor heir : Class} (ancestorMember : ancestor ∈ classes) (heirMember : heir ∈ classes) :
    isA ancestor heir = true ↔ ancestor.lineage <:+ heir.lineage := by
  rw [is_a_iff_exists]
  constructor
  · intro inherits
    obtain ⟨member, above, same⟩ := inherits
    have known := mem_of_mem_lineage declared heirMember above
    obtain rfl := (same_iff_of_declared declared known ancestorMember).mp same
    exact suffix_of_mem_lineage above
  · intro ends
    exact ⟨ancestor, ends.subset (mem_lineage_self ancestor),
      (same_iff_of_declared declared ancestorMember ancestorMember).mpr rfl⟩

/-- Inheritance among the classes, which are told apart by identity, is descent along the parents. It
is a partial order, and the classes that one class inherits from are comparable. -/
structure OrderedByDescent (classes : List Class) : Prop where
  descends : ∀ ancestor ∈ classes, ∀ heir ∈ classes,
    isA ancestor heir = true ↔ ancestor ∈ heir.lineage
  refl : ∀ heir ∈ classes, isA heir heir = true
  trans : ∀ highest ∈ classes, ∀ middle ∈ classes, ∀ heir ∈ classes,
    isA highest middle = true → isA middle heir = true → isA highest heir = true
  antisymm : ∀ left ∈ classes, ∀ right ∈ classes,
    isA left right = true → isA right left = true → left.same right = true
  comparable : ∀ heir ∈ classes, ∀ left ∈ classes, ∀ right ∈ classes,
    isA left heir = true → isA right heir = true → isA left right = true ∨ isA right left = true

theorem ordered_by_descent {classes : List Class} (declared : Declared classes) :
    OrderedByDescent classes := by
  constructor
  case descends =>
    intro ancestor ancestorMember heir heirMember
    rw [is_a_iff_suffix declared ancestorMember heirMember]
    exact ⟨fun ends => ends.subset (mem_lineage_self ancestor), suffix_of_mem_lineage⟩
  case refl =>
    intro heir member
    exact (is_a_iff_suffix declared member member).mpr (List.suffix_refl _)
  case trans =>
    intro highest highestMember middle middleMember heir heirMember upper lower
    rw [is_a_iff_suffix declared highestMember middleMember] at upper
    rw [is_a_iff_suffix declared middleMember heirMember] at lower
    exact (is_a_iff_suffix declared highestMember heirMember).mpr (upper.trans lower)
  case antisymm =>
    intro left leftMember right rightMember below above
    rw [is_a_iff_suffix declared leftMember rightMember] at below
    rw [is_a_iff_suffix declared rightMember leftMember] at above
    rw [same_iff_of_declared declared leftMember rightMember]
    have equal := below.eq_of_length (Nat.le_antisymm below.length_le above.length_le)
    exact lineage_injective equal
  case comparable =>
    intro heir heirMember left leftMember right rightMember leftAbove rightAbove
    rw [is_a_iff_suffix declared leftMember heirMember] at leftAbove
    rw [is_a_iff_suffix declared rightMember heirMember] at rightAbove
    rw [is_a_iff_suffix declared leftMember rightMember,
      is_a_iff_suffix declared rightMember leftMember]
    exact List.suffix_or_suffix_of_suffix leftAbove rightAbove

end ObjectShape.Class
