import ObjectShape.Proofs.Declaration.Levels
import ObjectShape.Proofs.Declaration.Notation
import ObjectShape.Proofs.Value.Levels

/-!
# The grammar of the object notation

Which values are schemas, said of the value alone. The same object is judged differently where it
stands for a property and where it stands for a type: a property may carry controls, a type may not.
-/

namespace ObjectShape.Declaration

set_option autoImplicit false

variable {φ : Type}

def HasFlag (fields : List (String × Value φ)) : Prop :=
  ∀ value, Entries.get? Control.required.key fields = some value → value.bool?.isSome = true

def HoldsFunctions : Value φ → Prop
  | .function _ => True
  | .array items => ∀ item ∈ items, item.function?.isSome = true
  | _ => False

/-- The validators are absent or empty, or functions under the names of types. -/
def HasValidators (fields : List (String × Value φ)) : Prop :=
  match Entries.get? Control.validators.key fields with
  | none | some .undefined | some .null => True
  | some (.object _ registered) =>
      ∀ entry ∈ registered, (BasicType.ofName? entry.1).isSome = true ∧ HoldsFunctions entry.2
  | some _ => False

mutual

inductive IsProperty : Value φ → Prop where
  | oneOf {items : List (Value φ)} (filled : items ≠ [])
      (each : ∀ item ∈ items, IsAlternative item) : IsProperty (.array items)
  | type {value : Value φ} (flat : value.object? = none) (here : IsAlternative value) :
      IsProperty value
  | record {ref : ObjectRef} {fields : List (String × Value φ)} {value : Value φ}
      (flag : HasFlag fields) (registered : HasValidators fields)
      (typed : Entries.get? Control.type.key fields = some value)
      (bare : ∀ key ∈ Entries.keys fields, Control.owns key = true)
      (here : IsTypeField value) : IsProperty (.object ref fields)
  | nested {ref : ObjectRef} {fields : List (String × Value φ)} (flag : HasFlag fields)
      (registered : HasValidators fields)
      (untyped : Entries.get? Control.type.key fields = none) (filled : fields ≠ [])
      (each : ∀ entry ∈ fields, Control.owns entry.1 = false → IsProperty entry.2) :
      IsProperty (.object ref fields)

inductive IsTypeField : Value φ → Prop where
  | one {value : Value φ} (here : IsAlternative value) : IsTypeField value
  | oneOf {items : List (Value φ)} (filled : items ≠ [])
      (each : ∀ item ∈ items, IsAlternative item) : IsTypeField (.array items)

inductive IsAlternative : Value φ → Prop where
  | named {text : String} (registered : (BasicType.ofName? text).isSome = true) :
      IsAlternative (.string text)
  | function (function : Function φ) : IsAlternative (.function function)
  | schematic (handle : Handle φ) : IsAlternative (.schematic handle)
  | inline {ref : ObjectRef} {fields : List (String × Value φ)} (filled : fields ≠ [])
      (uncontrolled : ∀ control : Control, Entries.get? control.key fields = none)
      (each : ∀ entry ∈ fields, IsProperty entry.2) : IsAlternative (.object ref fields)

end

/-- An object whose fields are properties, controls aside. -/
inductive IsSchema : Value φ → Prop where
  | object {ref : ObjectRef} {fields : List (String × Value φ)}
      (each : ∀ entry ∈ fields, Control.owns entry.1 = false → IsProperty entry.2) :
      IsSchema (.object ref fields)

theorem has_flag_iff {fields : List (String × Value φ)} :
    HasFlag fields ↔ ∃ required, WritesFlag fields required := by
  constructor
  · intro boolean
    cases found : Entries.get? Control.required.key fields with
    | none => exact ⟨true, .absent found⟩
    | some value =>
        have flag := boolean value found
        cases value with
        | bool required => exact ⟨required, .given found⟩
        | _ => exact absurd flag Bool.false_ne_true
  · intro written value found
    obtain ⟨required, written⟩ := written
    cases written with
    | absent missing => exact absurd (missing.symm.trans found) (by simp)
    | given given =>
        rw [← Option.some.inj (given.symm.trans found)]
        rfl

theorem holds_functions_iff {value : Value φ} :
    HoldsFunctions value ↔ ∃ functions, WritesFunctions value functions := by
  constructor
  · intro holds
    cases value with
    | function function => exact ⟨_, .one function⟩
    | array items =>
        have listed : items = (items.filterMap Value.function?).map Value.function := by
          induction items with
          | nil => rfl
          | cons item rest ih =>
              obtain ⟨here, later⟩ := List.forall_mem_cons.mp holds
              cases item with
              | function function => simpa [Value.function?] using ih later
              | _ => exact absurd here Bool.false_ne_true
        rw [listed]
        exact ⟨_, .all _⟩
    | _ => exact holds.elim
  · intro written
    obtain ⟨functions, written⟩ := written
    cases written with
    | one function => trivial
    | all functions =>
        intro item member
        obtain ⟨function, _, rfl⟩ := List.mem_map.mp member
        rfl

theorem writes_groups_iff {fields : List (String × Value φ)} :
    (∀ entry ∈ fields, (BasicType.ofName? entry.1).isSome = true ∧ HoldsFunctions entry.2) ↔
      ∃ groups, WritesGroups fields groups := by
  induction fields with
  | nil => exact ⟨fun _ => ⟨[], .nil⟩, fun _ => by simp⟩
  | cons field rest ih =>
      obtain ⟨name, value⟩ := field
      rw [List.forall_mem_cons, ih, holds_functions_iff, Option.isSome_iff_exists]
      constructor
      · intro written
        obtain ⟨⟨⟨type, named⟩, functions, here⟩, groups, later⟩ := written
        exact ⟨_, .cons named here later⟩
      · intro written
        obtain ⟨groups, written⟩ := written
        cases written with
        | cons named here later => exact ⟨⟨⟨_, named⟩, _, here⟩, _, later⟩

theorem has_validators_iff {fields : List (String × Value φ)} :
    HasValidators fields ↔
      ∃ validators, WritesValidators (Entries.get? Control.validators.key fields) validators := by
  rw [HasValidators.eq_def]
  rcases Entries.get? Control.validators.key fields with _ | value
  · exact ⟨fun _ => ⟨[], .absent⟩, fun _ => trivial⟩
  · cases value with
    | undefined => exact ⟨fun _ => ⟨[], .undefined⟩, fun _ => trivial⟩
    | null => exact ⟨fun _ => ⟨[], .null⟩, fun _ => trivial⟩
    | object ref registered =>
        apply writes_groups_iff.trans
        constructor
        · intro written
          obtain ⟨groups, each⟩ := written
          exact ⟨_, .object each⟩
        · intro written
          obtain ⟨validators, written⟩ := written
          cases written with
          | object each => exact ⟨_, each⟩
    | _ =>
        constructor
        · exact fun none => none.elim
        · intro written
          obtain ⟨validators, written⟩ := written
          cases written

/-- Fields among which no control is found are all data. -/
theorem free_of_uncontrolled {fields : List (String × Value φ)}
    (uncontrolled : ∀ control : Control, Entries.get? control.key fields = none)
    {entry : String × Value φ} (member : entry ∈ fields) : Control.owns entry.1 = false := by
  rw [← Bool.not_eq_true, Control.owns_iff]
  intro controlled
  obtain ⟨control, same⟩ := controlled
  exact Entries.get?_eq_none_iff.mp (uncontrolled control)
    (same ▸ List.mem_map.mpr ⟨entry, member, rfl⟩)

mutual

theorem properties_of_writes {fields : List (String × Value φ)} {members : List (String × Member φ)} :
    WritesMembers fields members →
      ∀ entry ∈ fields, Control.owns entry.1 = false → IsProperty entry.2
  | .nil => fun _ member => absurd member List.not_mem_nil
  | .control owned later => List.forall_mem_cons.mpr
      ⟨fun free => absurd (owned.symm.trans free) (by simp), properties_of_writes later⟩
  | .data _ here later => List.forall_mem_cons.mpr
      ⟨fun _ => property_of_writes here, properties_of_writes later⟩
termination_by structural written => written

theorem property_of_writes {value : Value φ} {member : Member φ} :
    WritesMember value member → IsProperty value
  | .single flat here => .type flat (alternative_of_writes here)
  | .anyOf filled each => .oneOf filled (alternatives_of_writes each)
  | .record flag registered typed bare here =>
      .record (has_flag_iff.mpr ⟨_, flag⟩) (has_validators_iff.mpr ⟨_, registered⟩) typed bare
        (type_field_of_writes here)
  | .nested flag registered untyped filled inside =>
      .nested (has_flag_iff.mpr ⟨_, flag⟩) (has_validators_iff.mpr ⟨_, registered⟩) untyped filled
        (properties_of_writes inside)
termination_by structural written => written

theorem type_field_of_writes {value : Value φ} {types : List (TypeSpec φ)} :
    WritesTypes value types → IsTypeField value
  | .one here => .one (alternative_of_writes here)
  | .all filled each => .oneOf filled (alternatives_of_writes each)
termination_by structural written => written

theorem alternatives_of_writes {items : List (Value φ)} {types : List (TypeSpec φ)} :
    WritesItems items types → ∀ item ∈ items, IsAlternative item
  | .nil => fun _ member => absurd member List.not_mem_nil
  | .cons here later =>
      List.forall_mem_cons.mpr ⟨alternative_of_writes here, alternatives_of_writes later⟩
termination_by structural written => written

theorem alternative_of_writes {value : Value φ} {type : TypeSpec φ} :
    WritesType value type → IsAlternative value
  | .named registered => .named (Option.isSome_iff_exists.mpr ⟨_, registered⟩)
  | .function function => .function function
  | .schematic handle => .schematic handle
  | .inline filled uncontrolled inside =>
      .inline filled uncontrolled fun entry member =>
        properties_of_writes inside entry member (free_of_uncontrolled uncontrolled member)
termination_by structural written => written

end

theorem writes_members_exist {fields : List (String × Value φ)}
    (each : ∀ entry ∈ fields, Control.owns entry.1 = false → ∃ member, WritesMember entry.2 member) :
    ∃ members, WritesMembers fields members := by
  induction fields with
  | nil => exact ⟨[], .nil⟩
  | cons field rest ih =>
      obtain ⟨here, later⟩ := List.forall_mem_cons.mp each
      obtain ⟨members, later⟩ := ih later
      cases owned : Control.owns field.1 with
      | true => exact ⟨members, .control owned later⟩
      | false =>
          obtain ⟨member, here⟩ := here owned
          exact ⟨_, .data owned here later⟩

theorem writes_items_exist {items : List (Value φ)}
    (each : ∀ item ∈ items, ∃ type, WritesType item type) : ∃ types, WritesItems items types := by
  induction items with
  | nil => exact ⟨[], .nil⟩
  | cons item rest ih =>
      obtain ⟨⟨type, here⟩, later⟩ := List.forall_mem_cons.mp each
      obtain ⟨types, later⟩ := ih later
      exact ⟨_, .cons here later⟩

mutual

theorem writes_of_property {value : Value φ} : IsProperty value → ∃ member, WritesMember value member
  | .oneOf filled each => by
      obtain ⟨types, written⟩ := writes_items_exist fun item among =>
        writes_of_alternative (each item among)
      exact ⟨_, .anyOf filled written⟩
  | .type flat here => by
      obtain ⟨type, written⟩ := writes_of_alternative here
      exact ⟨_, .single flat written⟩
  | .record flag registered typed bare here => by
      obtain ⟨required, flag⟩ := has_flag_iff.mp flag
      obtain ⟨validators, registered⟩ := has_validators_iff.mp registered
      obtain ⟨types, written⟩ := writes_of_type_field here
      exact ⟨_, .record flag registered typed bare written⟩
  | .nested flag registered untyped filled each => by
      obtain ⟨required, flag⟩ := has_flag_iff.mp flag
      obtain ⟨validators, registered⟩ := has_validators_iff.mp registered
      obtain ⟨members, written⟩ := writes_members_exist fun entry among free =>
        writes_of_property (each entry among free)
      exact ⟨_, .nested flag registered untyped filled written⟩
termination_by structural valid => valid

theorem writes_of_type_field {value : Value φ} : IsTypeField value → ∃ types, WritesTypes value types
  | .one here => by
      obtain ⟨type, written⟩ := writes_of_alternative here
      exact ⟨_, .one written⟩
  | .oneOf filled each => by
      obtain ⟨types, written⟩ := writes_items_exist fun item among =>
        writes_of_alternative (each item among)
      exact ⟨_, .all filled written⟩
termination_by structural valid => valid

theorem writes_of_alternative {value : Value φ} : IsAlternative value → ∃ type, WritesType value type
  | .named registered => by
      obtain ⟨type, registered⟩ := Option.isSome_iff_exists.mp registered
      exact ⟨_, .named registered⟩
  | .function function => ⟨_, .function function⟩
  | .schematic handle => ⟨_, .schematic handle⟩
  | .inline filled uncontrolled each => by
      obtain ⟨members, written⟩ := writes_members_exist fun entry among _ =>
        writes_of_property (each entry among)
      exact ⟨_, .inline filled uncontrolled written⟩
termination_by structural valid => valid

end

theorem is_schema_iff {value : Value φ} : IsSchema value ↔ ∃ declaration, Writes value declaration := by
  constructor
  · intro valid
    cases valid with
    | object each =>
        obtain ⟨members, written⟩ := writes_members_exist fun entry among free =>
          writes_of_property (each entry among free)
        exact ⟨_, .object written⟩
  · intro written
    obtain ⟨declaration, written⟩ := written
    cases written with
    | object inside => exact .object (properties_of_writes inside)

/-- None of the keys is a control. -/
def DataKeys (keys : List String) : Prop :=
  ∀ key ∈ keys, Control.owns key = false

theorem keys_of_writes_members {fields : List (String × Value φ)}
    {members : List (String × Member φ)} (written : WritesMembers fields members) :
    Entries.keys members = (Entries.keys fields).filter fun key => !Control.owns key := by
  induction fields generalizing members with
  | nil =>
      cases written
      rfl
  | cons field rest ih =>
      cases written with
      | control owned later => simpa [Entries.keys, owned] using ih later
      | data free here later => simpa [Entries.keys, free] using ih later

theorem data_keys_of_writes_members {fields : List (String × Value φ)}
    {members : List (String × Member φ)} (written : WritesMembers fields members) :
    DataKeys (Entries.keys members) := by
  intro key member
  rw [keys_of_writes_members written] at member
  simpa using (List.mem_filter.mp member).2

section Throughout

variable {ofKeys : List String → Prop} {holds : List (String × Member φ) → Prop}

/-- What is said of the keys of fields carries over to the members that the fields write. -/
def Carries (ofKeys : List String → Prop) (holds : List (String × Member φ) → Prop) : Prop :=
  ∀ (fields : List (String × Value φ)) (members : List (String × Member φ)),
    ofKeys (Entries.keys fields) → WritesMembers fields members → holds members

mutual

theorem throughout_of_members (carries : Carries ofKeys holds) {fields : List (String × Value φ)}
    {members : List (String × Member φ)} :
    WritesMembers fields members → (∀ entry ∈ fields, entry.2.EveryLevel ofKeys) →
      ∀ entry ∈ members, ∀ inner ∈ entry.2.inner, inner.Throughout holds
  | .nil => fun _ _ member => absurd member List.not_mem_nil
  | .control _ later => fun parts =>
      throughout_of_members carries later (List.forall_mem_cons.mp parts).2
  | .data _ here later => fun parts => List.forall_mem_cons.mpr
      ⟨throughout_of_member carries here (List.forall_mem_cons.mp parts).1,
        throughout_of_members carries later (List.forall_mem_cons.mp parts).2⟩
termination_by structural written => written

theorem throughout_of_member (carries : Carries ofKeys holds) {value : Value φ} {member : Member φ} :
    WritesMember value member → value.EveryLevel ofKeys →
      ∀ inner ∈ member.inner, inner.Throughout holds
  | .single _ here => fun level =>
      TypeSpec.forall_inline_singleton_iff.mpr (throughout_of_type carries here level)
  | .anyOf _ items => fun level =>
      throughout_of_items carries items (Value.forall_mem_children_array.mp level.parts)
  | .record _ _ typed _ here => fun level =>
      throughout_of_types carries here (level.parts _ (Entries.mem_of_get? typed))
  | .nested _ _ _ _ inside => fun level => List.forall_mem_singleton.mpr
      (.of (carries _ _ level.here inside) (throughout_of_members carries inside level.parts))
termination_by structural written => written

theorem throughout_of_types (carries : Carries ofKeys holds) {value : Value φ}
    {types : List (TypeSpec φ)} :
    WritesTypes value types → value.EveryLevel ofKeys →
      ∀ inner ∈ types.filterMap TypeSpec.inline?, inner.Throughout holds
  | .one here => fun level =>
      TypeSpec.forall_inline_singleton_iff.mpr (throughout_of_type carries here level)
  | .all _ items => fun level =>
      throughout_of_items carries items (Value.forall_mem_children_array.mp level.parts)
termination_by structural written => written

theorem throughout_of_items (carries : Carries ofKeys holds) {items : List (Value φ)}
    {types : List (TypeSpec φ)} :
    WritesItems items types → (∀ item ∈ items, item.EveryLevel ofKeys) →
      ∀ inner ∈ types.filterMap TypeSpec.inline?, inner.Throughout holds
  | .nil => fun _ _ member => absurd member List.not_mem_nil
  | .cons here later => fun parts => TypeSpec.forall_inline_cons_iff.mpr
      ⟨throughout_of_type carries here (List.forall_mem_cons.mp parts).1,
        throughout_of_items carries later (List.forall_mem_cons.mp parts).2⟩
termination_by structural written => written

theorem throughout_of_type (carries : Carries ofKeys holds) {value : Value φ} {type : TypeSpec φ} :
    WritesType value type → value.EveryLevel ofKeys →
      ∀ inner ∈ type.inline?, inner.Throughout holds
  | .named _ | .schematic _ => fun _ _ member => absurd member (by simp [TypeSpec.inline?])
  | .function function => fun _ _ member => by
      rw [TypeSpec.ofFunction] at member
      cases made : function.class? <;> simp [made, TypeSpec.inline?] at member
  | .inline _ _ inside => fun level _ member => Option.some.inj member ▸
      .of (carries _ _ level.here inside) (throughout_of_members carries inside level.parts)
termination_by structural written => written

end

/-- What carries over at one level of a value does at all of them. -/
theorem throughout_of_writes (carries : Carries ofKeys holds) {value : Value φ}
    {declaration : Declaration φ} (written : Writes value declaration)
    (level : value.EveryLevel ofKeys) : declaration.Throughout holds := by
  cases written with
  | object inside =>
      exact .of (carries _ _ level.here inside) (throughout_of_members carries inside level.parts)

end Throughout

/-- Reading accepts exactly the grammar, and what it reads is what the value writes: at every level
one member for each field that is no control, in the order of the fields. -/
theorem of_value_ok_iff_is_schema (value : Value φ) :
    ((∃ declaration, ofValue value = .ok declaration) ↔ IsSchema value) ∧
      ∀ declaration, ofValue value = .ok declaration ↔
        Writes value declaration ∧ declaration.EveryLevel DataKeys := by
  constructor
  · simp only [is_schema_iff, writes_iff]
  · intro declaration
    rw [writes_iff]
    constructor
    · intro written
      have everywhere : value.EveryLevel fun _ => True :=
        (Value.every_level_iff value).mpr fun _ _ => trivial
      exact ⟨written, throughout_of_writes
        (fun _ _ _ inside => data_keys_of_writes_members inside) written everywhere⟩
    · exact fun read => read.1

end ObjectShape.Declaration
