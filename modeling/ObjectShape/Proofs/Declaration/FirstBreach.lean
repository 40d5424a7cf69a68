import ObjectShape.Proofs.Declaration.Breaches
import ObjectShape.Proofs.Declaration.Drafts

/-!
# The first breach

Reading a schema fails at the first property that breaks a rule of its own. On the way there, through
objects nested in place and objects that are types, every property that is passed is well formed, and
the path in the fault joins the keys of those that are not.
-/

namespace ObjectShape.Declaration

set_option autoImplicit false

variable {φ : Type}

/-- The keys lead to the property: at every level, all properties before the one at the key are well
formed, and the one at the key opens the fields of the next level. -/
inductive ComesTo : List (String × Value φ) → List String → Value φ → Prop where
  | here {key : String} {property : Value φ} {rest : List (String × Value φ)}
      (free : Control.owns key = false) : ComesTo ((key, property) :: rest) [key] property
  | inside {key : String} {value property : Value φ} {rest inner : List (String × Value φ)}
      {keys : List String} (free : Control.owns key = false) (opens : Opens value inner)
      (further : ComesTo inner keys property) :
      ComesTo ((key, value) :: rest) (key :: keys) property
  | past {key : String} {value property : Value φ} {rest : List (String × Value φ)}
      {keys : List String} (formed : Control.owns key = false → IsProperty value)
      (later : ComesTo rest keys property) : ComesTo ((key, value) :: rest) keys property

/-- The fault is that of a property to which keys lead from the fields, under its path. -/
def Blames (above : Option String) (fields : List (String × Value φ)) (fault : SchemaFault) : Prop :=
  ∃ keys property place, ComesTo fields keys property ∧ Path.extend above keys = some place ∧
    Breaks place property fault

def BlamesAt (path : String) (broken : Prop) (opens : List (String × Value φ) → Prop)
    (fault : SchemaFault) : Prop :=
  broken ∨ ∃ inner, opens inner ∧ Blames (some path) inner fault

theorem blames_nil (above : Option String) (fault : SchemaFault) :
    ¬ Blames above ([] : List (String × Value φ)) fault := by
  rintro ⟨keys, property, place, comes, _⟩
  cases comes

theorem blames_cons_iff {above : Option String} {key : String} {value : Value φ}
    {rest : List (String × Value φ)} {fault : SchemaFault} :
    Blames above ((key, value) :: rest) fault ↔
      Control.owns key = false ∧
          BlamesAt (Path.join above key) (Breaks (Path.join above key) value fault) (Opens value)
            fault ∨
        (Control.owns key = false → IsProperty value) ∧ Blames above rest fault := by
  constructor
  · rintro ⟨keys, property, place, comes, joined, broken⟩
    cases comes with
    | here free =>
        obtain rfl := Option.some.inj joined
        exact .inl ⟨free, .inl broken⟩
    | inside free opens further =>
        exact .inl ⟨free, .inr ⟨_, opens, _, property, place, further, joined, broken⟩⟩
    | past formed later => exact .inr ⟨formed, keys, property, place, later, joined, broken⟩
  · rintro (⟨free, broken | ⟨inner, opens, keys, property, place, further, joined, broken⟩⟩ |
      ⟨formed, keys, property, place, later, joined, broken⟩)
    · exact ⟨[key], value, _, .here free, rfl, broken⟩
    · exact ⟨key :: keys, property, place, .inside free opens further, joined, broken⟩
    · exact ⟨keys, property, place, .past formed later, joined, broken⟩

def FailsMember (value : Value φ) : Prop :=
  ∀ path fault, readMember path value = .error fault ↔
    BlamesAt path (Breaks path value fault) (Opens value) fault

def FailsMembers (fields : List (String × Value φ)) : Prop :=
  ∀ above fault, readMembers above fields = .error fault ↔ Blames above fields fault

def FailsTypes (value : Value φ) : Prop :=
  ∀ path fault, readTypes path value = .error fault ↔
    BlamesAt path (TypesBreak path value fault) (TypesOpen value) fault

def FailsTypeField (fields : List (String × Value φ)) : Prop :=
  ∀ value, Entries.get? Control.type.key fields = some value → FailsTypes value

def FailsItems (items : List (Value φ)) : Prop :=
  ∀ path fault, readTypeItems path items = .error fault ↔
    FirstAmong IsAlternative (fun item =>
      BlamesAt path (AlternativeBreaks path item fault) (AlternativeOpens item) fault) items

def FailsType (value : Value φ) : Prop :=
  ∀ path fault, readType path value = .error fault ↔
    BlamesAt path (AlternativeBreaks path value fault) (AlternativeOpens value) fault

theorem read_member_ok_iff {path : String} {value : Value φ} :
    (∃ member, readMember path value = .ok member) ↔ IsProperty value := by
  simp only [reads_member value path]
  constructor
  · rintro ⟨member, written⟩
    exact property_of_writes written
  · exact writes_of_property

theorem read_type_ok_iff {path : String} {value : Value φ} :
    (∃ type, readType path value = .ok type) ↔ IsAlternative value := by
  simp only [reads_type value path]
  constructor
  · rintro ⟨type, written⟩
    exact alternative_of_writes written
  · exact writes_of_alternative

/-- A run that comes after another, and whose failure does not depend on the result of it. -/
theorem bind_eq_error_iff_of_fails {α β : Type} {first : Except SchemaFault α}
    {next : α → Except SchemaFault β} {fault : SchemaFault} {fine fails : Prop}
    (succeeds : (∃ value, first = .ok value) ↔ fine)
    (onwards : ∀ value, next value = .error fault ↔ fails) :
    (first >>= next) = .error fault ↔ first = .error fault ∨ fine ∧ fails := by
  rw [bind_eq_error_iff, ← succeeds]
  simp only [onwards, exists_and_right]

theorem pure_ne_error {α : Type} {value : α} {fault : SchemaFault} :
    (pure value : Except SchemaFault α) = .error fault ↔ False := by
  simp [pure, Except.pure]

/-- A result that is only wrapped fails as the run does. -/
theorem map_eq_error_iff {α β : Type} {run : Except SchemaFault α} {make : α → β}
    {fault : SchemaFault} :
    (run >>= fun value => pure (make value)) = .error fault ↔ run = .error fault := by
  rw [bind_eq_error_iff]
  simp [pure_ne_error]

theorem fails_members_cons {key : String} {value : Value φ} {rest : List (String × Value φ)}
    (here : FailsMember value) (later : FailsMembers rest) :
    FailsMembers ((key, value) :: rest) := by
  intro above fault
  rw [readMembers, blames_cons_iff]
  cases owned : Control.owns key with
  | true => simp [later above fault]
  | false =>
      rw [if_neg Bool.false_ne_true, bind_eq_error_iff_of_fails read_member_ok_iff
        fun _ => map_eq_error_iff, here, later]
      simp

theorem fails_items_cons {item : Value φ} {rest : List (Value φ)} (here : FailsType item)
    (later : FailsItems rest) : FailsItems (item :: rest) := by
  intro path fault
  rw [readTypeItems, FirstAmong, bind_eq_error_iff_of_fails read_type_ok_iff
    fun _ => map_eq_error_iff, here, later]

/-- Where one level at most is opened, something inside can only be at fault in its fields. -/
theorem blames_at_iff_of_one {path : String} {broken reached : Prop}
    {opens : List (String × Value φ) → Prop} {fields : List (String × Value φ)}
    {fault : SchemaFault} (one : ∀ inner, opens inner ↔ reached ∧ inner = fields) :
    BlamesAt path broken opens fault ↔ broken ∨ reached ∧ Blames (some path) fields fault := by
  simp [BlamesAt, one, and_assoc]

theorem alternative_opens_iff {ref : ObjectRef} {fields inner : List (String × Value φ)} :
    AlternativeOpens (.object ref fields) inner ↔
      (fields ≠ [] ∧ ∀ control : Control, Entries.get? control.key fields = none) ∧
        inner = fields := by
  constructor
  · intro opens
    cases opens with
    | inline filled uncontrolled => exact ⟨⟨filled, uncontrolled⟩, rfl⟩
  · rintro ⟨⟨filled, uncontrolled⟩, rfl⟩
    exact .inline filled uncontrolled

theorem fails_type_of_flat {value : Value φ} (flat : value.object? = none) : FailsType value := by
  intro path fault
  have reads : readType path value = plainType path value := by
    cases value with
    | object ref fields => exact absurd flat (by simp [Value.object?])
    | _ => rfl
  rw [reads, plain_type_eq_error_iff path flat]
  constructor
  · exact .inl
  · rintro (broken | ⟨inner, opens, _⟩)
    · exact broken
    · cases opens
      exact absurd flat (by simp [Value.object?])

theorem fails_type_object {ref : ObjectRef} {fields : List (String × Value φ)}
    (inside : FailsMembers fields) : FailsType (.object ref fields) := by
  intro path fault
  have checks : (∃ checked, checkInline path fields = .ok checked) ↔
      fields ≠ [] ∧ ∀ control : Control, Entries.get? control.key fields = none := by
    constructor
    · rintro ⟨_, checked⟩
      exact check_inline_eq_ok_iff.mp checked
    · exact fun formed => ⟨(), check_inline_eq_ok_iff.mpr formed⟩
  rw [readType, bind_eq_error_iff_of_fails checks fun _ => map_eq_error_iff,
    check_inline_eq_error_iff ref, inside, blames_at_iff_of_one fun _ => alternative_opens_iff]

/-- The first of the items at fault, or the first that has something at fault inside it. -/
theorem first_among_blames_at_iff {path : String} {items : List (Value φ)} {fault : SchemaFault} :
    FirstAmong IsAlternative (fun item =>
        BlamesAt path (AlternativeBreaks path item fault) (AlternativeOpens item) fault) items ↔
      FirstAmong IsAlternative (fun item => AlternativeBreaks path item fault) items ∨
        ∃ inner, FirstAmong IsAlternative (fun item => AlternativeOpens item inner) items ∧
          Blames (some path) inner fault := by
  rw [← first_among_exists, ← first_among_or]
  rfl

theorem filled_or_throw_eq_error_iff {α β : Type} {items : List α} {thrown fault : SchemaFault}
    {made : β} :
    (do
      if items.isEmpty then throw thrown
      return made : Except SchemaFault β) = .error fault ↔ items = [] ∧ fault = thrown := by
  cases items with
  | nil => simp [throw, throwThe, MonadExceptOf.throw, bind, Except.bind, eq_comm]
  | cons item rest => simp [pure, Except.pure]

theorem types_break_array_iff {path : String} {items : List (Value φ)} {fault : SchemaFault} :
    TypesBreak path (.array items) fault ↔
      FirstAmong IsAlternative (fun item => AlternativeBreaks path item fault) items ∨
        items = [] ∧ fault = .invalidPropertyType path := by
  constructor
  · intro broken
    cases broken with
    | none => exact .inr ⟨rfl, rfl⟩
    | among first => exact .inl first
    | one single => exact absurd single (by simp [Value.array?])
  · rintro (first | ⟨rfl, rfl⟩)
    · exact .among first
    · exact .none

theorem types_open_array_iff {items : List (Value φ)} {inner : List (String × Value φ)} :
    TypesOpen (.array items) inner ↔
      FirstAmong IsAlternative (fun item => AlternativeOpens item inner) items := by
  constructor
  · intro opens
    cases opens with
    | among first => exact first
    | one opens => cases opens
  · exact .among

theorem fails_types_array {items : List (Value φ)} (each : FailsItems items) :
    FailsTypes (.array items) := by
  intro path fault
  have emptied : (∃ types, readTypeItems path items = .ok types ∧ types = []) ↔ items = [] := by
    constructor
    · rintro ⟨types, read, none⟩
      exact (writes_items_eq_nil_iff ((reads_items items path types).mp read)).mp none
    · rintro rfl
      exact ⟨[], rfl, rfl⟩
  have reads : readTypes path (.array items) = .error fault ↔
      readTypeItems path items = .error fault ∨
        items = [] ∧ fault = .invalidPropertyType path := by
    simp only [readTypes, bind_eq_error_iff, filled_or_throw_eq_error_iff, ← and_assoc,
      exists_and_right, emptied]
  rw [reads, each, first_among_blames_at_iff, BlamesAt, types_break_array_iff]
  simp only [types_open_array_iff]
  exact or_right_comm

theorem fails_types_of_single {value : Value φ} (single : value.array? = none)
    (here : FailsType value) : FailsTypes value := by
  intro path fault
  have breaks : TypesBreak path value fault ↔ AlternativeBreaks path value fault := by
    constructor
    · intro broken
      cases broken with
      | none | among => exact absurd single (by simp [Value.array?])
      | one _ broken => exact broken
    · exact .one single
  have opens : ∀ inner, TypesOpen value inner ↔ AlternativeOpens value inner := by
    intro inner
    constructor
    · intro opens
      cases opens with
      | among => exact absurd single (by simp [Value.array?])
      | one opens => exact opens
    · exact .one
  rw [read_types_of_single path single, map_eq_error_iff, here, breaks, BlamesAt, BlamesAt]
  simp only [opens]

theorem fails_type_field_cons {key : String} {value : Value φ} {rest : List (String × Value φ)}
    (here : FailsTypes value) (later : FailsTypeField rest) :
    FailsTypeField ((key, value) :: rest) := by
  intro other typed
  rw [Entries.get?] at typed
  split at typed
  · exact Option.some.inj typed ▸ here
  · exact later other typed

theorem breaks_iff_of_flat {path : String} {value : Value φ} {fault : SchemaFault}
    (flat : value.object? = none) : Breaks path value fault ↔ TypesBreak path value fault := by
  constructor
  · intro broken
    cases broken with
    | listed _ broken => exact broken
    | _ => exact absurd flat (by simp [Value.object?])
  · exact .listed flat

theorem opens_iff_of_flat {value : Value φ} {inner : List (String × Value φ)}
    (flat : value.object? = none) : Opens value inner ↔ TypesOpen value inner := by
  constructor
  · intro opens
    cases opens with
    | listed _ opens => exact opens
    | _ => exact absurd flat (by simp [Value.object?])
  · exact .listed flat

/-- A property that is no object is at fault as its types are. -/
theorem fails_member_of_flat {value : Value φ} (flat : value.object? = none)
    (types : FailsTypes value) : FailsMember value := by
  intro path fault
  have reads : readMember path value = .error fault ↔ readTypes path value = .error fault := by
    cases value with
    | object ref fields => exact absurd flat (by simp [Value.object?])
    | array items =>
        simp only [readMember, readTypes, bind_eq_error_iff, filled_or_throw_eq_error_iff]
    | _ => simp only [readMember, readTypes, map_eq_error_iff]
  rw [reads, types, BlamesAt, BlamesAt, breaks_iff_of_flat flat]
  simp only [opens_iff_of_flat flat]

def BreaksUpTo (path : String) (fields : List (String × Value φ)) (fault : SchemaFault)
    (after : Prop) : Prop :=
  ¬ HasFlag fields ∧ fault = .invalidRequired path ∨
    HasFlag fields ∧
      (ValidatorsBreak path (Entries.get? Control.validators.key fields) fault ∨
        HasValidators fields ∧ after)

theorem read_controls_eq_error_iff {α : Type} {path : String} {fields : List (String × Value φ)}
    {fault : SchemaFault} {after : Prop}
    {next : Bool → List (BasicType × List (Function φ)) → Except SchemaFault α}
    (onwards : ∀ required validators, next required validators = .error fault ↔ after) :
    (do
      let required ← isRequired path fields
      let validators ← readValidators path (Entries.get? Control.validators.key fields)
      next required validators : Except SchemaFault α) = .error fault ↔
      BreaksUpTo path fields fault after := by
  have flags : (∃ required, isRequired path fields = .ok required) ↔ HasFlag fields := by
    simp only [is_required_eq_ok_iff, has_flag_iff]
  have registers : (∃ validators,
      readValidators path (Entries.get? Control.validators.key fields) = .ok validators) ↔
        HasValidators fields := by
    simp only [read_validators_eq_ok_iff, has_validators_iff]
  rw [bind_eq_error_iff_of_fails flags fun required =>
      bind_eq_error_iff_of_fails registers (onwards required),
    is_required_eq_error_iff, read_validators_eq_error_iff, BreaksUpTo]

/-- What is reached after the flag and the validators is at fault, or something inside it. -/
theorem blames_at_breaks_up_to_iff {path : String} {fields : List (String × Value φ)}
    {fault : SchemaFault} {broken : Prop} {opens reached : List (String × Value φ) → Prop}
    (opened : ∀ inner, opens inner ↔ HasFlag fields ∧ HasValidators fields ∧ reached inner) :
    BlamesAt path (BreaksUpTo path fields fault broken) opens fault ↔
      BreaksUpTo path fields fault (BlamesAt path broken reached fault) := by
  simp only [BlamesAt, BreaksUpTo, opened]
  constructor
  · rintro ((flagless | ⟨flag, unregistered | ⟨registered, broken⟩⟩) |
      ⟨inner, ⟨flag, registered, reached⟩, blamed⟩)
    · exact .inl flagless
    · exact .inr ⟨flag, .inl unregistered⟩
    · exact .inr ⟨flag, .inr ⟨registered, .inl broken⟩⟩
    · exact .inr ⟨flag, .inr ⟨registered, .inr ⟨inner, reached, blamed⟩⟩⟩
  · rintro (flagless | ⟨flag, unregistered |
      ⟨registered, broken | ⟨inner, reached, blamed⟩⟩⟩)
    · exact .inl (.inl flagless)
    · exact .inl (.inr ⟨flag, .inl unregistered⟩)
    · exact .inl (.inr ⟨flag, .inr ⟨registered, broken⟩⟩)
    · exact .inr ⟨inner, ⟨flag, registered, reached⟩, blamed⟩

section Untyped

variable {ref : ObjectRef} {fields inner : List (String × Value φ)} {path : String}
  {fault : SchemaFault}

theorem breaks_untyped_iff (untyped : Entries.get? Control.type.key fields = none) :
    Breaks path (.object ref fields) fault ↔
      BreaksUpTo path fields fault (fields = [] ∧ fault = .emptySchema (some path)) := by
  constructor
  · intro broken
    cases broken with
    | flag broken => exact .inl ⟨broken, rfl⟩
    | validators flag broken => exact .inr ⟨flag, .inl broken⟩
    | beside _ _ typed => exact absurd typed (by simp [untyped])
    | types _ _ typed => exact absurd typed (by simp [untyped])
    | empty => exact .inr ⟨by simp [HasFlag, Entries.get?], .inr ⟨trivial, rfl, rfl⟩⟩
    | listed flat => exact absurd flat (by simp [Value.object?])
  · rintro (⟨broken, rfl⟩ | ⟨flag, broken | ⟨_, rfl, rfl⟩⟩)
    · exact .flag broken
    · exact .validators flag broken
    · exact .empty ref

theorem opens_untyped_iff (untyped : Entries.get? Control.type.key fields = none) :
    Opens (.object ref fields) inner ↔
      HasFlag fields ∧ HasValidators fields ∧ fields ≠ [] ∧ inner = fields := by
  constructor
  · intro opens
    cases opens with
    | nested flag registered _ filled => exact ⟨flag, registered, filled, rfl⟩
    | types _ _ typed => exact absurd typed (by simp [untyped])
    | listed flat => exact absurd flat (by simp [Value.object?])
  · rintro ⟨flag, registered, filled, rfl⟩
    exact .nested flag registered untyped filled

theorem fails_member_untyped (inside : FailsMembers fields)
    (untyped : Entries.get? Control.type.key fields = none) :
    readMember path (.object ref fields) = .error fault ↔
      BlamesAt path (Breaks path (.object ref fields) fault) (Opens (.object ref fields)) fault := by
  rw [readMember, breaks_untyped_iff untyped,
    blames_at_breaks_up_to_iff fun _ => opens_untyped_iff untyped,
    blames_at_iff_of_one fun _ => Iff.rfl]
  apply read_controls_eq_error_iff
  intro required validators
  rw [untyped, if_neg (by simp)]
  cases fields with
  | nil => simp [throw, throwThe, MonadExceptOf.throw, eq_comm]
  | cons field rest =>
      rw [List.isEmpty_cons, if_neg Bool.false_ne_true, map_eq_error_iff, inside]
      simp

end Untyped

section Typed

variable {ref : ObjectRef} {fields inner : List (String × Value φ)} {value : Value φ}
  {path : String} {fault : SchemaFault}

/-- What is wrong beside the types or with them. -/
theorem breaks_typed_iff (typed : Entries.get? Control.type.key fields = some value) :
    Breaks path (.object ref fields) fault ↔
      BreaksUpTo path fields fault
        ((∃ key, firstDataKey? fields = some key ∧ fault = .unexpectedProperty path key) ∨
          firstDataKey? fields = none ∧ TypesBreak path value fault) := by
  constructor
  · intro broken
    cases broken with
    | flag broken => exact .inl ⟨broken, rfl⟩
    | validators flag broken => exact .inr ⟨flag, .inl broken⟩
    | beside flag registered _ first =>
        exact .inr ⟨flag, .inr ⟨registered,
          .inl ⟨_, first_data_key_eq_some_iff.mpr first, rfl⟩⟩⟩
    | types flag registered found bare broken =>
        obtain rfl := Option.some.inj (typed.symm.trans found)
        exact .inr ⟨flag, .inr ⟨registered,
          .inr ⟨first_data_key_eq_none_iff.mpr bare, broken⟩⟩⟩
    | empty => exact absurd typed (by simp [Entries.get?])
    | listed flat => exact absurd flat (by simp [Value.object?])
  · rintro (⟨broken, rfl⟩ | ⟨flag, broken | ⟨registered, ⟨key, found, rfl⟩ | ⟨bare, broken⟩⟩⟩)
    · exact .flag broken
    · exact .validators flag broken
    · exact .beside flag registered (by simp [typed]) (first_data_key_eq_some_iff.mp found)
    · exact .types flag registered typed (first_data_key_eq_none_iff.mp bare) broken

theorem opens_typed_iff (typed : Entries.get? Control.type.key fields = some value) :
    Opens (.object ref fields) inner ↔
      HasFlag fields ∧ HasValidators fields ∧ firstDataKey? fields = none ∧
        TypesOpen value inner := by
  constructor
  · intro opens
    cases opens with
    | nested _ _ untyped => exact absurd untyped (by simp [typed])
    | types flag registered found bare opens =>
        obtain rfl := Option.some.inj (typed.symm.trans found)
        exact ⟨flag, registered, first_data_key_eq_none_iff.mpr bare, opens⟩
    | listed flat => exact absurd flat (by simp [Value.object?])
  · rintro ⟨flag, registered, bare, opens⟩
    exact .types flag registered typed (first_data_key_eq_none_iff.mp bare) opens

theorem fails_member_typed (types : FailsTypes value)
    (typed : Entries.get? Control.type.key fields = some value) :
    readMember path (.object ref fields) = .error fault ↔
      BlamesAt path (Breaks path (.object ref fields) fault) (Opens (.object ref fields)) fault := by
  rw [readMember, breaks_typed_iff typed,
    blames_at_breaks_up_to_iff fun _ => opens_typed_iff typed]
  apply read_controls_eq_error_iff
  intro required validators
  rw [typed, if_pos (by simp)]
  cases found : firstDataKey? fields with
  | some key => simp [throw, throwThe, MonadExceptOf.throw, BlamesAt, eq_comm]
  | none =>
      simp only [map_eq_error_iff, read_type_field_eq path typed, types path fault, BlamesAt]
      simp

end Typed

theorem fails_member_object {ref : ObjectRef} {fields : List (String × Value φ)}
    (types : FailsTypeField fields) (inside : FailsMembers fields) :
    FailsMember (.object ref fields) := by
  intro path fault
  cases found : Entries.get? Control.type.key fields with
  | none => exact fails_member_untyped inside found
  | some value => exact fails_member_typed (types value found) found

mutual

theorem fails_members : (fields : List (String × Value φ)) → FailsMembers fields
  | [] => by
      intro above fault
      simp [readMembers, blames_nil]
  | (_, value) :: rest => fails_members_cons (fails_member value) (fails_members rest)
termination_by structural fields => fields

theorem fails_member : (value : Value φ) → FailsMember value
  | .object _ fields => fails_member_object (fails_type_field fields) (fails_members fields)
  | .array items => fails_member_of_flat rfl (fails_types_array (fails_items items))
  | .undefined | .null | .bool _ | .number _ | .bigint _ | .string _ | .symbol _ | .date _
  | .function _ | .instanceOf _ _ | .schematic _ =>
      fails_member_of_flat rfl (fails_types_of_single rfl (fails_type_of_flat rfl))
termination_by structural value => value

theorem fails_type_field : (fields : List (String × Value φ)) → FailsTypeField fields
  | [] => fun _ typed => absurd typed (by simp [Entries.get?])
  | (_, value) :: rest => fails_type_field_cons (fails_types value) (fails_type_field rest)
termination_by structural fields => fields

theorem fails_types : (value : Value φ) → FailsTypes value
  | .object _ fields => fails_types_of_single rfl (fails_type_object (fails_members fields))
  | .array items => fails_types_array (fails_items items)
  | .undefined | .null | .bool _ | .number _ | .bigint _ | .string _ | .symbol _ | .date _
  | .function _ | .instanceOf _ _ | .schematic _ =>
      fails_types_of_single rfl (fails_type_of_flat rfl)
termination_by structural value => value

theorem fails_items : (items : List (Value φ)) → FailsItems items
  | [] => by
      intro path fault
      simp [readTypeItems, FirstAmong]
  | item :: rest => fails_items_cons (fails_type item) (fails_items rest)
termination_by structural items => items

theorem fails_type : (value : Value φ) → FailsType value
  | .object _ fields => fails_type_object (fails_members fields)
  | .array _ | .undefined | .null | .bool _ | .number _ | .bigint _ | .string _ | .symbol _
  | .date _ | .function _ | .instanceOf _ _ | .schematic _ => fails_type_of_flat rfl
termination_by structural value => value

end

/-- Reading fails without a path just for what is no object. Of an object it fails with the first
property that breaks a rule: the fault is that of the rule and carries the path of the property, and
all that was passed on the way to it is well formed. -/
theorem of_value_error_iff :
    (∀ raw : Value φ, ofValue raw = .error .invalidSchema ↔ raw.object? = none) ∧
      SchemaFault.invalidSchema.path? = none ∧
      ∀ ref fields fault, ofValue (.object ref fields : Value φ) = .error fault ↔
        ∃ keys property place, ComesTo fields keys property ∧
          Path.extend none keys = some place ∧ Breaks place property fault ∧
          fault.path? = some place := by
  have fails : ∀ ref fields fault, ofValue (.object ref fields : Value φ) = .error fault ↔
      ∃ keys property place, ComesTo fields keys property ∧
        Path.extend none keys = some place ∧ Breaks place property fault ∧
        fault.path? = some place := by
    intro ref fields fault
    rw [ofValue, map_eq_error_iff, fails_members]
    constructor
    · rintro ⟨keys, property, place, comes, joined, broken⟩
      exact ⟨keys, property, place, comes, joined, broken, path_of_breaks broken⟩
    · rintro ⟨keys, property, place, comes, joined, broken, _⟩
      exact ⟨keys, property, place, comes, joined, broken⟩
  refine ⟨fun raw => ?_, rfl, fails⟩
  cases raw with
  | object ref fields =>
      rw [fails]
      constructor
      · rintro ⟨_, _, _, _, _, _, placed⟩
        cases placed
      · exact fun flat => absurd flat (by simp [Value.object?])
  | _ => simp [ofValue, Value.object?]

/-- The flag of `a.b.c` is broken inside a type of `a.b`, whose first type is as it should be; the
fault of `d` comes later. -/
example :
    ofValue (.object ⟨0, 0⟩ [
      ("a", .object ⟨0, 1⟩ [("$required", .bool false),
        ("b", .array [.string "string", .object ⟨0, 2⟩ [
          ("c", .object ⟨0, 3⟩ [("$type", .string "number"), ("$required", .null)])]])]),
      ("d", .array [])] : Value Empty) = .error (.invalidRequired "a.b.c") := by
  cbv

end ObjectShape.Declaration
