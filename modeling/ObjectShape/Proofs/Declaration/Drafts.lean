import ObjectShape.Proofs.Declaration.Grammar

/-!
# Drafts

A draft is a schema written as an object in which some of the objects that stand for types say
nothing yet. It has a declaration all the same, the one in which these types declare nothing. Reading
a draft stops at the first of them, whatever is to be made of empty schemas later on; apart from them
it reads what is written.
-/

namespace ObjectShape.Declaration

set_option autoImplicit false

variable {φ : Type}

mutual

inductive DraftsMembers : List (String × Value φ) → List (String × Member φ) → Prop where
  | nil : DraftsMembers [] []
  | control {key : String} {value : Value φ} {rest : List (String × Value φ)}
      {members : List (String × Member φ)} (owned : Control.owns key = true)
      (later : DraftsMembers rest members) : DraftsMembers ((key, value) :: rest) members
  | data {key : String} {value : Value φ} {member : Member φ} {rest : List (String × Value φ)}
      {members : List (String × Member φ)} (free : Control.owns key = false)
      (here : DraftsMember value member) (later : DraftsMembers rest members) :
      DraftsMembers ((key, value) :: rest) ((key, member) :: members)

inductive DraftsMember : Value φ → Member φ → Prop where
  | single {value : Value φ} {type : TypeSpec φ} (flat : value.object? = none)
      (here : WritesType value type) : DraftsMember value (.single type)
  | anyOf {items : List (Value φ)} {types : List (TypeSpec φ)} (filled : items ≠ [])
      (each : DraftsItems items types) : DraftsMember (.array items) (.anyOf types)
  | record {ref : ObjectRef} {fields : List (String × Value φ)} {required : Bool}
      {validators : List (BasicType × List (Function φ))} {value : Value φ}
      {types : List (TypeSpec φ)} (flag : WritesFlag fields required)
      (registered : WritesValidators (Entries.get? Control.validators.key fields) validators)
      (typed : Entries.get? Control.type.key fields = some value)
      (bare : ∀ key ∈ Entries.keys fields, Control.owns key = true)
      (here : DraftsTypes value types) :
      DraftsMember (.object ref fields) (.record required types validators)
  | nested {ref : ObjectRef} {fields : List (String × Value φ)} {required : Bool}
      {validators : List (BasicType × List (Function φ))} {members : List (String × Member φ)}
      (flag : WritesFlag fields required)
      (registered : WritesValidators (Entries.get? Control.validators.key fields) validators)
      (untyped : Entries.get? Control.type.key fields = none) (filled : fields ≠ [])
      (inside : DraftsMembers fields members) :
      DraftsMember (.object ref fields) (.nested required validators ⟨members⟩)

inductive DraftsTypes : Value φ → List (TypeSpec φ) → Prop where
  | one {value : Value φ} {type : TypeSpec φ} (here : DraftsType value type) :
      DraftsTypes value [type]
  | all {items : List (Value φ)} {types : List (TypeSpec φ)} (filled : items ≠ [])
      (each : DraftsItems items types) : DraftsTypes (.array items) types

inductive DraftsItems : List (Value φ) → List (TypeSpec φ) → Prop where
  | nil : DraftsItems [] []
  | cons {item : Value φ} {type : TypeSpec φ} {rest : List (Value φ)} {types : List (TypeSpec φ)}
      (here : DraftsType item type) (later : DraftsItems rest types) :
      DraftsItems (item :: rest) (type :: types)

/-- As `WritesType`, but an object may be empty: then it is the declaration of nothing. -/
inductive DraftsType : Value φ → TypeSpec φ → Prop where
  | flat {value : Value φ} {type : TypeSpec φ} (flat : value.object? = none)
      (here : WritesType value type) : DraftsType value type
  | vacant (ref : ObjectRef) : DraftsType (.object ref []) (.inline ⟨[]⟩)
  | inline {ref : ObjectRef} {fields : List (String × Value φ)}
      {members : List (String × Member φ)} (filled : fields ≠ [])
      (uncontrolled : ∀ control : Control, Entries.get? control.key fields = none)
      (inside : DraftsMembers fields members) :
      DraftsType (.object ref fields) (.inline ⟨members⟩)

end

inductive Drafts : Value φ → Declaration φ → Prop where
  | object {ref : ObjectRef} {fields : List (String × Value φ)}
      {members : List (String × Member φ)} (inside : DraftsMembers fields members) :
      Drafts (.object ref fields) ⟨members⟩

mutual

/-- The paths of the types that are declarations of nothing, in the order in which a declaration is
read, below `above`. -/
def vacancies (above : Option String) : List (String × Member φ) → List String
  | [] => []
  | (key, member) :: rest => vacanciesOf (Path.join above key) member ++ vacancies above rest
termination_by structural members => members

def vacanciesOf (path : String) : Member φ → List String
  | .single type => vacanciesOfType path type
  | .anyOf types | .record _ types _ => vacanciesOfTypes path types
  | .nested _ _ ⟨members⟩ => vacancies (some path) members
termination_by structural member => member

def vacanciesOfTypes (path : String) : List (TypeSpec φ) → List String
  | [] => []
  | type :: rest => vacanciesOfType path type ++ vacanciesOfTypes path rest
termination_by structural types => types

def vacanciesOfType (path : String) : TypeSpec φ → List String
  | .inline ⟨[]⟩ => [path]
  | .inline ⟨first :: rest⟩ => vacancies (some path) (first :: rest)
  | .named _ | .instanceOf _ | .predicate _ | .schematic _ => []
termination_by structural type => type

end

def unlessVacant {α : Type} (result : α) : List String → Except SchemaFault α
  | [] => .ok result
  | place :: _ => .error (.emptySchema (some place))

section Steps

variable {α β : Type} {first : α} {places : List String} {run : Except SchemaFault α}

theorem bind_of_ok {next : α → Except SchemaFault β} (here : run = .ok first) :
    run >>= next = next first := by
  rw [here]
  rfl

theorem bind_unless_vacant {second : β} {later : List String} {next : α → Except SchemaFault β}
    (here : run = unlessVacant first places) (onwards : next first = unlessVacant second later) :
    run >>= next = unlessVacant second (places ++ later) := by
  rw [here]
  cases places with
  | nil => exact onwards
  | cons place rest => rfl

theorem map_unless_vacant {second : β} {next : α → Except SchemaFault β}
    (here : run = unlessVacant first places) (onwards : next first = .ok second) :
    run >>= next = unlessVacant second places := by
  have settled : next first = unlessVacant second [] := onwards
  have joined := bind_unless_vacant here settled
  rwa [List.append_nil] at joined

theorem unless_vacant_eq_ok_iff {result : α} :
    unlessVacant first places = .ok result ↔ places = [] ∧ first = result := by
  cases places <;> simp [unlessVacant]

end Steps

theorem members_ne_nil_of_drafted {fields : List (String × Value φ)}
    {members : List (String × Member φ)} (filled : fields ≠ [])
    (uncontrolled : ∀ control : Control, Entries.get? control.key fields = none)
    (drafted : DraftsMembers fields members) : members ≠ [] := by
  obtain ⟨field, rest, rfl⟩ := List.exists_cons_of_ne_nil filled
  have free := free_of_uncontrolled uncontrolled List.mem_cons_self
  cases drafted with
  | control owned later => exact absurd (owned.symm.trans free) (by simp)
  | data _ here later => exact List.cons_ne_nil _ _

theorem types_ne_nil_of_drafted {items : List (Value φ)} {types : List (TypeSpec φ)}
    (filled : items ≠ []) (drafted : DraftsItems items types) : types ≠ [] := by
  cases drafted with
  | nil => exact absurd rfl filled
  | cons here later => exact List.cons_ne_nil _ _

theorem vacancies_of_flat {value : Value φ} {type : TypeSpec φ} (path : String)
    (flat : value.object? = none) (written : WritesType value type) :
    vacanciesOfType path type = [] := by
  cases written with
  | named registered => rfl
  | function function =>
      rw [TypeSpec.ofFunction]
      cases function.class? <;> rfl
  | schematic handle => rfl
  | inline filled => exact absurd flat (by simp [Value.object?])

theorem vacancies_of_inline (path : String) {members : List (String × Member φ)}
    (filled : members ≠ []) :
    vacanciesOfType path (.inline ⟨members⟩) = vacancies (some path) members := by
  obtain ⟨first, rest, rfl⟩ := List.exists_cons_of_ne_nil filled
  rfl

theorem array_of_drafted {value : Value φ} {type : TypeSpec φ} (drafted : DraftsType value type) :
    value.array? = none := by
  cases drafted with
  | flat _ here => cases here <;> rfl
  | vacant ref => rfl
  | inline filled uncontrolled inside => rfl

theorem read_type_field_eq (path : String) {fields : List (String × Value φ)} {value : Value φ}
    (typed : Entries.get? Control.type.key fields = some value) :
    readTypeField path fields = readTypes path value := by
  induction fields with
  | nil => exact absurd typed (by simp [Entries.get?])
  | cons field rest ih =>
      obtain ⟨key, other⟩ := field
      rw [Entries.get?] at typed
      rw [readTypeField]
      by_cases same : key = Control.type.key
      · rw [if_pos same] at typed ⊢
        rw [Option.some.inj typed]
      · rw [if_neg same] at typed ⊢
        exact ih typed

/-- The types of a property's own object are read last, after a flag and validators that are as they
should be. -/
theorem read_typed_member {ref : ObjectRef} {fields : List (String × Value φ)} {required : Bool}
    {validators : List (BasicType × List (Function φ))} {value : Value φ}
    {types : List (TypeSpec φ)} {path : String} {places : List String}
    (flag : WritesFlag fields required)
    (registered : WritesValidators (Entries.get? Control.validators.key fields) validators)
    (typed : Entries.get? Control.type.key fields = some value)
    (bare : ∀ key ∈ Entries.keys fields, Control.owns key = true)
    (here : readTypes path value = unlessVacant types places) :
    readMember path (.object ref fields) =
      unlessVacant (.record required types validators) places := by
  rw [readMember, bind_of_ok (is_required_eq_ok_iff.mpr flag),
    bind_of_ok (read_validators_eq_ok_iff.mpr registered)]
  simp only [typed, first_data_key_eq_none_iff.mpr bare, read_type_field_eq path typed]
  exact map_unless_vacant here rfl

/-- The fields of a property's own object are read last, if there are no types. -/
theorem read_untyped_member {ref : ObjectRef} {fields : List (String × Value φ)} {required : Bool}
    {validators : List (BasicType × List (Function φ))} {members : List (String × Member φ)}
    {path : String} {places : List String} (flag : WritesFlag fields required)
    (registered : WritesValidators (Entries.get? Control.validators.key fields) validators)
    (untyped : Entries.get? Control.type.key fields = none) (filled : fields ≠ [])
    (inside : readMembers (some path) fields = unlessVacant members places) :
    readMember path (.object ref fields) =
      unlessVacant (.nested required validators ⟨members⟩) places := by
  obtain ⟨field, rest, rfl⟩ := List.exists_cons_of_ne_nil filled
  rw [readMember, bind_of_ok (is_required_eq_ok_iff.mpr flag),
    bind_of_ok (read_validators_eq_ok_iff.mpr registered)]
  simp only [untyped]
  exact map_unless_vacant inside rfl

mutual

theorem read_members_of_drafts {fields : List (String × Value φ)}
    {members : List (String × Member φ)} : DraftsMembers fields members → ∀ above,
      readMembers above fields = unlessVacant members (vacancies above members)
  | .nil => fun _ => rfl
  | .control owned later => fun above => by
      rw [readMembers, if_pos owned]
      exact read_members_of_drafts later above
  | .data free here later => fun above => by
      rw [readMembers, if_neg (by simp [free]), vacancies]
      exact bind_unless_vacant (read_member_of_drafts here _)
        (map_unless_vacant (read_members_of_drafts later above) rfl)
termination_by structural drafted => drafted

theorem read_member_of_drafts {value : Value φ} {member : Member φ} :
    DraftsMember value member → ∀ path,
      readMember path value = unlessVacant member (vacanciesOf path member)
  | .single flat here => fun path => by
      rw [vacanciesOf, vacancies_of_flat path flat here]
      exact (reads_member _ path _).mpr (.single flat here)
  | .anyOf filled each => fun path => by
      rw [readMember, vacanciesOf]
      exact map_unless_vacant (read_items_of_drafts each path)
        (filled_or_throw_eq_ok_iff.mpr ⟨types_ne_nil_of_drafted filled each, rfl⟩)
  | .record flag registered typed bare here => fun path =>
      read_typed_member flag registered typed bare (read_types_of_drafts here path)
  | .nested flag registered untyped filled inside => fun path =>
      read_untyped_member flag registered untyped filled
        (read_members_of_drafts inside (some path))
termination_by structural drafted => drafted

theorem read_types_of_drafts {value : Value φ} {types : List (TypeSpec φ)} :
    DraftsTypes value types → ∀ path,
      readTypes path value = unlessVacant types (vacanciesOfTypes path types)
  | .one here => fun path => by
      rw [read_types_of_single path (array_of_drafted here), vacanciesOfTypes, vacanciesOfTypes,
        List.append_nil]
      exact map_unless_vacant (read_type_of_drafts here path) rfl
  | .all filled each => fun path => by
      rw [readTypes]
      exact map_unless_vacant (read_items_of_drafts each path)
        (filled_or_throw_eq_ok_iff.mpr ⟨types_ne_nil_of_drafted filled each, rfl⟩)
termination_by structural drafted => drafted

theorem read_items_of_drafts {items : List (Value φ)} {types : List (TypeSpec φ)} :
    DraftsItems items types → ∀ path,
      readTypeItems path items = unlessVacant types (vacanciesOfTypes path types)
  | .nil => fun _ => rfl
  | .cons here later => fun path => by
      rw [readTypeItems, vacanciesOfTypes]
      exact bind_unless_vacant (read_type_of_drafts here path)
        (map_unless_vacant (read_items_of_drafts later path) rfl)
termination_by structural drafted => drafted

theorem read_type_of_drafts {value : Value φ} {type : TypeSpec φ} :
    DraftsType value type → ∀ path,
      readType path value = unlessVacant type (vacanciesOfType path type)
  | .flat flat here => fun path => by
      rw [vacancies_of_flat path flat here]
      exact (reads_type _ path _).mpr here
  | .vacant ref => fun path => rfl
  | .inline filled uncontrolled inside => fun path => by
      rw [readType, bind_of_ok (check_inline_eq_ok_iff.mpr ⟨filled, uncontrolled⟩),
        vacancies_of_inline path (members_ne_nil_of_drafted filled uncontrolled inside)]
      exact map_unless_vacant (read_members_of_drafts inside (some path)) rfl
termination_by structural drafted => drafted

end

/-- Reading a draft fails at its first vacancy, or yields its declaration. -/
theorem of_value_of_drafts {raw : Value φ} {declaration : Declaration φ}
    (drafted : Drafts raw declaration) :
    ofValue raw = unlessVacant declaration (vacancies none declaration.members) := by
  cases drafted with
  | object inside => exact map_unless_vacant (read_members_of_drafts inside none) rfl

mutual

theorem drafts_members_of_writes {fields : List (String × Value φ)}
    {members : List (String × Member φ)} :
    WritesMembers fields members → DraftsMembers fields members
  | .nil => .nil
  | .control owned later => .control owned (drafts_members_of_writes later)
  | .data free here later =>
      .data free (drafts_member_of_writes here) (drafts_members_of_writes later)
termination_by structural written => written

theorem drafts_member_of_writes {value : Value φ} {member : Member φ} :
    WritesMember value member → DraftsMember value member
  | .single flat here => .single flat here
  | .anyOf filled each => .anyOf filled (drafts_items_of_writes each)
  | .record flag registered typed bare here =>
      .record flag registered typed bare (drafts_types_of_writes here)
  | .nested flag registered untyped filled inside =>
      .nested flag registered untyped filled (drafts_members_of_writes inside)
termination_by structural written => written

theorem drafts_types_of_writes {value : Value φ} {types : List (TypeSpec φ)} :
    WritesTypes value types → DraftsTypes value types
  | .one here => .one (drafts_type_of_writes here)
  | .all filled each => .all filled (drafts_items_of_writes each)
termination_by structural written => written

theorem drafts_items_of_writes {items : List (Value φ)} {types : List (TypeSpec φ)} :
    WritesItems items types → DraftsItems items types
  | .nil => .nil
  | .cons here later => .cons (drafts_type_of_writes here) (drafts_items_of_writes later)
termination_by structural written => written

theorem drafts_type_of_writes {value : Value φ} {type : TypeSpec φ} :
    WritesType value type → DraftsType value type
  | .named registered => .flat rfl (.named registered)
  | .function function => .flat rfl (.function function)
  | .schematic handle => .flat rfl (.schematic handle)
  | .inline filled uncontrolled inside =>
      .inline filled uncontrolled (drafts_members_of_writes inside)
termination_by structural written => written

end

/-- What is written is a draft without vacancies. -/
theorem writes_iff_drafts {raw : Value φ} {declaration : Declaration φ} :
    Writes raw declaration ↔
      Drafts raw declaration ∧ vacancies none declaration.members = [] := by
  have drafted : Writes raw declaration → Drafts raw declaration := by
    intro written
    cases written with
    | object inside => exact .object (drafts_members_of_writes inside)
  constructor
  · intro written
    have read := of_value_of_drafts (drafted written)
    rw [writes_iff.mpr written] at read
    exact ⟨drafted written, (unless_vacant_eq_ok_iff.mp read.symm).1⟩
  · intro full
    rw [← writes_iff, of_value_of_drafts full.1, full.2]
    rfl

end ObjectShape.Declaration
