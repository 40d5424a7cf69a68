import Mathlib.Data.List.Permutation
import ObjectShape.Proofs.Shape.Verdict
import ObjectShape.Shape.Compilation

/-!
# Assembled shapes

A compiled declaration is either disabled or assembled from declared properties. The keys of an
assembled shape are the paths of its table, each once; sorted, they name every ancestor before what
lies below it, so the verdict of a compiled declaration does not depend on the walk.
-/

namespace ObjectShape.Shape

set_option autoImplicit false

variable {φ : Type}

theorem collect_nodup (declared : List (Property φ)) (table : List (String × Property φ))
    (distinct : (Entries.keys table).Nodup) :
    (Entries.keys (declared.foldl collect table)).Nodup := by
  induction declared generalizing table with
  | nil => exact distinct
  | cons property rest ih =>
      exact ih (collect table property) (Entries.nodup_keys_upsert _ _ distinct)

theorem keys_of_properties_perm (sorted : Bool) (declared : List (Property φ)) :
    (ofProperties sorted declared).keys.Perm
      (Entries.keys (ofProperties sorted declared).properties) := by
  cases sorted with
  | false => exact List.Perm.refl _
  | true => exact List.mergeSort_perm _ _

theorem keys_of_properties_nodup (sorted : Bool) (declared : List (Property φ)) :
    (ofProperties sorted declared).keys.Nodup := by
  rw [(keys_of_properties_perm sorted declared).nodup_iff]
  have distinct := collect_nodup declared [] List.nodup_nil
  simpa only [ofProperties, Entries.keys_map] using distinct

theorem property_of_key {sorted : Bool} {declared : List (Property φ)} {key : String}
    (member : key ∈ (ofProperties sorted declared).keys) :
    ((ofProperties sorted declared).property? key).isSome = true := by
  rw [(keys_of_properties_perm sorted declared).mem_iff] at member
  rw [Option.isSome_iff_ne_none, property?]
  exact fun absent => Entries.get?_eq_none_iff.mp absent member

theorem sort_keys_ascending (keys : List String) : (sortKeys keys).Pairwise (· ≤ ·) := by
  have chained : ∀ first second third : String, decide (first ≤ second) = true →
      decide (second ≤ third) = true → decide (first ≤ third) = true := by
    intro first second third lower upper
    simp only [decide_eq_true_eq] at lower upper ⊢
    exact String.le_trans lower upper
  have total : ∀ left right : String, (decide (left ≤ right) || decide (right ≤ left)) = true := by
    intro left right
    simpa using String.le_total left right
  have ordered := List.pairwise_mergeSort chained total keys
  exact ordered.imp of_decide_eq_true

theorem sort_keys_ancestors_first (keys : List String) : AncestorsFirst (sortKeys keys) :=
  (sort_keys_ascending keys).imp Path.not_is_below_of_le

theorem depth_eq_max (sorted : Bool) (declared : List (Property φ)) :
    (ofProperties sorted declared).depth =
      ((Entries.keys (ofProperties sorted declared).properties).map Path.depth).max?.getD 0 :=
  List.foldl_max.trans (Nat.zero_max _)

theorem depth_of_key {sorted : Bool} {declared : List (Property φ)} {key : String}
    (member : key ∈ (ofProperties sorted declared).keys) :
    Path.depth key ≤ (ofProperties sorted declared).depth := by
  rw [(keys_of_properties_perm sorted declared).mem_iff] at member
  rw [depth_eq_max]
  exact List.le_max?_getD_of_mem (List.mem_map_of_mem member)

theorem build_of_inhabited {members : List (String × Member φ)} (inhabited : members ≠ [])
    (policy : EmptyPolicy) (label : Option String) (sorted : Bool) :
    build policy label sorted ⟨members⟩ =
      layOut policy label none members >>= fun declared => pure (ofProperties sorted declared) := by
  cases members with
  | nil => exact absurd rfl inhabited
  | cons first rest => rw [build]

/-- A built shape is disabled, or assembled from the properties that the members lay out. -/
theorem build_cases {policy : EmptyPolicy} {label : Option String} {sorted : Bool}
    {members : List (String × Member φ)} {shape : Shape φ}
    (built : build policy label sorted ⟨members⟩ = .ok shape) :
    members = [] ∧ policy = .disable ∧ shape = disabled ∨
      members ≠ [] ∧ ∃ declared, layOut policy label none members = .ok declared ∧
        shape = ofProperties sorted declared := by
  cases members with
  | nil =>
      cases policy with
      | reject => simp [build] at built
      | disable =>
          simp only [build, Except.ok.injEq] at built
          exact .inl ⟨rfl, rfl, built.symm⟩
  | cons first rest =>
      rw [build] at built
      cases laidOut : layOut policy label none (first :: rest) with
      | error fault => simp [laidOut, bind, Except.bind] at built
      | ok declared =>
          simp only [laidOut, bind, Except.bind, pure, Except.pure, Except.ok.injEq] at built
          exact .inr ⟨by simp, declared, rfl, built.symm⟩

/-- Every key of a compiled declaration has a property, and ancestors stand first. -/
theorem keys_of_compiled {policy : EmptyPolicy} {declaration : Declaration φ} {shape : Shape φ}
    (compiled : declaration.compile policy = .ok shape) :
    (∀ key ∈ shape.keys, (shape.property? key).isSome = true) ∧ AncestorsFirst shape.keys := by
  obtain ⟨members⟩ := declaration
  rcases build_cases compiled with ⟨_, _, rfl⟩ | ⟨_, declared, _, rfl⟩
  · exact ⟨by simp [disabled], List.Pairwise.nil⟩
  · exact ⟨fun key member => property_of_key member, sort_keys_ancestors_first _⟩

def childFirst : Declaration Empty :=
  ⟨[("a.b", .single (.named .string)), ("a", .record false [.named .bigint] [])]⟩

def childFirstShape : Shape Empty :=
  { properties :=
      [("a.b", ⟨"a.b", true, [.named .string], []⟩),
        ("a", ⟨"a", false, [.named .bigint, .named .undefined], []⟩)]
    keys := ["a", "a.b"]
    enabled := true
    depth := 2 }

/-- The verdict of a compiled declaration: whatever its keys are and in whatever order they were
declared, each is settled by another key or met on its own. -/
theorem compiled_accepts_iff [Host φ] (policy : EmptyPolicy) (declaration : Declaration φ)
    (shape : Shape φ) (value : Value φ) (compiled : declaration.compile policy = .ok shape) :
    shape.accepts value = true ↔
      shape.enabled = true ∧ value.isObjectLike = true ∧
        ∀ key ∈ shape.keys,
          SettledAmong shape.properties (value.outline shape.depth) shape.keys key := by
  obtain ⟨members⟩ := declaration
  rcases build_cases compiled with ⟨_, _, rfl⟩ | ⟨_, declared, _, rfl⟩
  · exact accepts_iff_settled_among disabled value (by simp [disabled]) List.Pairwise.nil
  · exact accepts_iff_settled_among _ value (fun key member => property_of_key member)
      (sort_keys_ancestors_first _)

theorem child_first_accepts_iff :
    childFirst.compile .reject = .ok childFirstShape ∧
      (childFirstShape.accepts (.object ⟨0, 0⟩ [("a", .bigint 1)]) = true ↔
        childFirstShape.enabled = true ∧
          (Value.object ⟨0, 0⟩ [("a", .bigint 1)] : Value Empty).isObjectLike = true ∧
          ∀ key ∈ childFirstShape.keys,
            SettledAmong childFirstShape.properties
              ((Value.object ⟨0, 0⟩ [("a", .bigint 1)] : Value Empty).outline
                childFirstShape.depth)
              childFirstShape.keys key) := by
  have compiled : childFirst.compile .reject = .ok childFirstShape := by cbv
  exact ⟨compiled, compiled_accepts_iff .reject childFirst childFirstShape _ compiled⟩

end ObjectShape.Shape
