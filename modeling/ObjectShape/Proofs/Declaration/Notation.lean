import ObjectShape.Declaration.ObjectForm
import ObjectShape.Shape.Compilation

/-!
# What an object writes

The relation between a plain object and the declaration it writes, with no paths in it: paths only
appear in faults. Reading succeeds with a declaration exactly when the relation holds.
-/

namespace ObjectShape.Declaration

set_option autoImplicit false

variable {φ : Type}

/-- The flag of a property's own object; a property without a flag is required. -/
inductive WritesFlag (fields : List (String × Value φ)) : Bool → Prop where
  | absent (missing : Entries.get? Control.required.key fields = none) : WritesFlag fields true
  | given {required : Bool}
      (found : Entries.get? Control.required.key fields = some (.bool required)) :
      WritesFlag fields required

inductive WritesFunctions : Value φ → List (Function φ) → Prop where
  | one (function : Function φ) : WritesFunctions (.function function) [function]
  | all (functions : List (Function φ)) :
      WritesFunctions (.array (functions.map Value.function)) functions

inductive WritesGroups :
    List (String × Value φ) → List (BasicType × List (Function φ)) → Prop where
  | nil : WritesGroups [] []
  | cons {name : String} {value : Value φ} {type : BasicType} {functions : List (Function φ)}
      {rest : List (String × Value φ)} {groups : List (BasicType × List (Function φ))}
      (named : BasicType.ofName? name = some type) (here : WritesFunctions value functions)
      (later : WritesGroups rest groups) :
      WritesGroups ((name, value) :: rest) ((type, functions) :: groups)

/-- The validators of a property's own object; undefined and null stand for none. -/
inductive WritesValidators :
    Option (Value φ) → List (BasicType × List (Function φ)) → Prop where
  | absent : WritesValidators none []
  | undefined : WritesValidators (some .undefined) []
  | null : WritesValidators (some .null) []
  | object {ref : ObjectRef} {fields : List (String × Value φ)}
      {groups : List (BasicType × List (Function φ))} (each : WritesGroups fields groups) :
      WritesValidators (some (.object ref fields)) (Property.addValidators [] groups)

mutual

/-- The members that fields write: one for each field that is no control, in the order of the
fields. -/
inductive WritesMembers : List (String × Value φ) → List (String × Member φ) → Prop where
  | nil : WritesMembers [] []
  | control {key : String} {value : Value φ} {rest : List (String × Value φ)}
      {members : List (String × Member φ)} (owned : Control.owns key = true)
      (later : WritesMembers rest members) : WritesMembers ((key, value) :: rest) members
  | data {key : String} {value : Value φ} {member : Member φ} {rest : List (String × Value φ)}
      {members : List (String × Member φ)} (free : Control.owns key = false)
      (here : WritesMember value member) (later : WritesMembers rest members) :
      WritesMembers ((key, value) :: rest) ((key, member) :: members)

inductive WritesMember : Value φ → Member φ → Prop where
  | single {value : Value φ} {type : TypeSpec φ} (flat : value.object? = none)
      (here : WritesType value type) : WritesMember value (.single type)
  | anyOf {items : List (Value φ)} {types : List (TypeSpec φ)} (filled : items ≠ [])
      (each : WritesItems items types) : WritesMember (.array items) (.anyOf types)
  | record {ref : ObjectRef} {fields : List (String × Value φ)} {required : Bool}
      {validators : List (BasicType × List (Function φ))} {value : Value φ}
      {types : List (TypeSpec φ)} (flag : WritesFlag fields required)
      (registered : WritesValidators (Entries.get? Control.validators.key fields) validators)
      (typed : Entries.get? Control.type.key fields = some value)
      (bare : ∀ key ∈ Entries.keys fields, Control.owns key = true)
      (here : WritesTypes value types) :
      WritesMember (.object ref fields) (.record required types validators)
  | nested {ref : ObjectRef} {fields : List (String × Value φ)} {required : Bool}
      {validators : List (BasicType × List (Function φ))} {members : List (String × Member φ)}
      (flag : WritesFlag fields required)
      (registered : WritesValidators (Entries.get? Control.validators.key fields) validators)
      (untyped : Entries.get? Control.type.key fields = none) (filled : fields ≠ [])
      (inside : WritesMembers fields members) :
      WritesMember (.object ref fields) (.nested required validators ⟨members⟩)

inductive WritesTypes : Value φ → List (TypeSpec φ) → Prop where
  | one {value : Value φ} {type : TypeSpec φ} (here : WritesType value type) :
      WritesTypes value [type]
  | all {items : List (Value φ)} {types : List (TypeSpec φ)} (filled : items ≠ [])
      (each : WritesItems items types) : WritesTypes (.array items) types

inductive WritesItems : List (Value φ) → List (TypeSpec φ) → Prop where
  | nil : WritesItems [] []
  | cons {item : Value φ} {type : TypeSpec φ} {rest : List (Value φ)} {types : List (TypeSpec φ)}
      (here : WritesType item type) (later : WritesItems rest types) :
      WritesItems (item :: rest) (type :: types)

/-- The type that a value writes; an object is a declaration of its own, without controls. -/
inductive WritesType : Value φ → TypeSpec φ → Prop where
  | named {text : String} {type : BasicType} (registered : BasicType.ofName? text = some type) :
      WritesType (.string text) (.named type)
  | function (function : Function φ) :
      WritesType (.function function) (TypeSpec.ofFunction function)
  | schematic (handle : Handle φ) : WritesType (.schematic handle) (.schematic handle)
  | inline {ref : ObjectRef} {fields : List (String × Value φ)}
      {members : List (String × Member φ)} (filled : fields ≠ [])
      (uncontrolled : ∀ control : Control, Entries.get? control.key fields = none)
      (inside : WritesMembers fields members) :
      WritesType (.object ref fields) (.inline ⟨members⟩)

end

inductive Writes : Value φ → Declaration φ → Prop where
  | object {ref : ObjectRef} {fields : List (String × Value φ)}
      {members : List (String × Member φ)} (inside : WritesMembers fields members) :
      Writes (.object ref fields) ⟨members⟩

theorem is_required_eq_ok_iff {path : String} {fields : List (String × Value φ)}
    {required : Bool} : isRequired path fields = .ok required ↔ WritesFlag fields required := by
  rw [isRequired]
  cases found : Entries.get? Control.required.key fields with
  | none =>
      constructor
      · intro read
        rw [← Except.ok.inj read]
        exact .absent found
      · intro written
        cases written with
        | absent => rfl
        | given given => exact absurd (found.symm.trans given) (by simp)
  | some value =>
      constructor
      · intro read
        cases value with
        | bool flag =>
            rw [← Except.ok.inj read]
            exact .given found
        | _ => exact absurd read (by simp)
      · intro written
        cases written with
        | absent missing => exact absurd (found.symm.trans missing) (by simp)
        | given given => rw [Option.some.inj (found.symm.trans given)]

theorem read_function_items_eq_ok_iff {read : Value φ → Except SchemaFault (Function φ)}
    (reads : ∀ item function, read item = .ok function ↔ item = .function function)
    {items : List (Value φ)} {functions : List (Function φ)} :
    items.mapM read = .ok functions ↔ items = functions.map Value.function := by
  induction items generalizing functions with
  | nil =>
      rw [List.mapM_nil, pure_eq_ok_iff]
      cases functions <;> simp
  | cons item rest ih =>
      simp only [List.mapM_cons, bind_eq_ok_iff, pure_eq_ok_iff, reads, ih]
      constructor
      · intro read
        obtain ⟨first, rfl, later, rfl, rfl⟩ := read
        rfl
      · intro listed
        cases functions with
        | nil => exact absurd listed (by simp)
        | cons first later =>
            obtain ⟨here, there⟩ := List.cons.inj listed
            exact ⟨first, here, later, there, rfl⟩

theorem read_functions_eq_ok_iff {path name : String} {value : Value φ}
    {functions : List (Function φ)} :
    readFunctions path name value = .ok functions ↔ WritesFunctions value functions := by
  rw [readFunctions.eq_def]
  constructor
  · intro read
    cases value with
    | function function =>
        rw [← Except.ok.inj read]
        exact .one function
    | array items =>
        have listed := (read_function_items_eq_ok_iff
          (by intro item function; cases item <;> simp)).mp read
        exact listed ▸ .all functions
    | _ => exact absurd read (by simp)
  · intro written
    cases written with
    | one function => rfl
    | all functions =>
        exact (read_function_items_eq_ok_iff
          (by intro item function; cases item <;> simp)).mpr rfl

theorem read_validator_fields_eq_ok_iff {path : String}
    {known validators : List (BasicType × List (Function φ))} {fields : List (String × Value φ)} :
    readValidatorFields path known fields = .ok validators ↔
      ∃ groups, WritesGroups fields groups ∧ Property.addValidators known groups = validators := by
  induction fields generalizing known with
  | nil =>
      rw [readValidatorFields, Except.ok.injEq]
      constructor
      · exact fun same => ⟨[], .nil, same⟩
      · intro written
        obtain ⟨groups, written, same⟩ := written
        cases written
        exact same
  | cons field rest ih =>
      obtain ⟨name, value⟩ := field
      rw [readValidatorFields]
      cases named : BasicType.ofName? name with
      | none =>
          constructor
          · exact fun read => absurd read (by simp)
          · intro written
            obtain ⟨groups, written, _⟩ := written
            cases written with
            | cons other => exact absurd (named.symm.trans other) (by simp)
      | some type =>
          simp only [bind_eq_ok_iff, read_functions_eq_ok_iff, ih]
          constructor
          · intro read
            obtain ⟨functions, here, groups, later, same⟩ := read
            exact ⟨(type, functions) :: groups, .cons named here later, same⟩
          · intro written
            obtain ⟨groups, written, same⟩ := written
            cases written with
            | cons other here later =>
                obtain rfl := Option.some.inj (named.symm.trans other)
                exact ⟨_, here, _, later, same⟩

theorem read_validators_eq_ok_iff {path : String} {value : Option (Value φ)}
    {validators : List (BasicType × List (Function φ))} :
    readValidators path value = .ok validators ↔ WritesValidators value validators := by
  rw [readValidators.eq_def]
  constructor
  · intro read
    rcases value with _ | value
    · rw [← Except.ok.inj read]
      exact .absent
    · cases value with
      | undefined =>
          rw [← Except.ok.inj read]
          exact .undefined
      | null =>
          rw [← Except.ok.inj read]
          exact .null
      | object ref fields =>
          obtain ⟨groups, each, rfl⟩ := read_validator_fields_eq_ok_iff.mp read
          exact .object each
      | _ => exact absurd read (by simp)
  · intro written
    cases written with
    | object each => exact read_validator_fields_eq_ok_iff.mpr ⟨_, each, rfl⟩
    | _ => rfl

theorem plain_type_eq_ok_iff (path : String) {value : Value φ} {type : TypeSpec φ}
    (flat : value.object? = none) : plainType path value = .ok type ↔ WritesType value type := by
  rw [plainType.eq_def]
  constructor
  · intro read
    cases value with
    | string text =>
        cases named : BasicType.ofName? text with
        | none => exact absurd read (by simp [named])
        | some found =>
            simp only [named, Except.ok.injEq] at read
            exact read ▸ .named named
    | function function => exact Except.ok.inj read ▸ .function function
    | schematic handle => exact Except.ok.inj read ▸ .schematic handle
    | _ => exact absurd read (by simp)
  · intro written
    cases written with
    | named registered => simp [registered]
    | function function => rfl
    | schematic handle => rfl
    | inline => exact absurd flat (by simp [Value.object?])

theorem check_inline_eq_ok_iff {path : String} {fields : List (String × Value φ)} :
    checkInline path fields = .ok () ↔
      fields ≠ [] ∧ ∀ control : Control, Entries.get? control.key fields = none := by
  rw [checkInline]
  cases fields with
  | nil => simp
  | cons field rest =>
      have listed : ∀ control : Control, control ∈ Control.all := by
        intro control
        cases control <;> decide
      rw [List.isEmpty_cons, if_neg Bool.false_ne_true]
      cases found : Control.all.find? fun control =>
          (Entries.get? control.key (field :: rest)).isSome with
      | none =>
          have absent : ∀ control : Control, Entries.get? control.key (field :: rest) = none := by
            intro control
            simpa using List.find?_eq_none.mp found control (listed control)
          exact ⟨fun _ => ⟨by simp, absent⟩, fun _ => rfl⟩
      | some control =>
          have present := List.find?_some found
          constructor
          · exact fun read => absurd read (by simp)
          · intro written
            rw [written.2 control] at present
            exact absurd present Bool.false_ne_true

theorem first_data_key_eq_none_iff {fields : List (String × Value φ)} :
    firstDataKey? fields = none ↔ ∀ key ∈ Entries.keys fields, Control.owns key = true := by
  simp [firstDataKey?]

def ReadsMember (value : Value φ) : Prop :=
  ∀ path member, readMember path value = .ok member ↔ WritesMember value member

def ReadsMembers (fields : List (String × Value φ)) : Prop :=
  ∀ above members, readMembers above fields = .ok members ↔ WritesMembers fields members

def ReadsTypes (value : Value φ) : Prop :=
  ∀ path types, readTypes path value = .ok types ↔ WritesTypes value types

def ReadsTypeField (fields : List (String × Value φ)) : Prop :=
  ∀ path types, readTypeField path fields = .ok types ↔
    ∃ value, Entries.get? Control.type.key fields = some value ∧ WritesTypes value types

def ReadsItems (items : List (Value φ)) : Prop :=
  ∀ path types, readTypeItems path items = .ok types ↔ WritesItems items types

def ReadsType (value : Value φ) : Prop :=
  ∀ path type, readType path value = .ok type ↔ WritesType value type

theorem reads_members_cons {key : String} {value : Value φ} {rest : List (String × Value φ)}
    (here : ReadsMember value) (later : ReadsMembers rest) :
    ReadsMembers ((key, value) :: rest) := by
  intro above members
  rw [readMembers]
  cases owned : Control.owns key with
  | true =>
      rw [if_pos rfl, later]
      constructor
      · exact .control owned
      · intro written
        cases written with
        | control _ written => exact written
        | data free => exact absurd (owned.symm.trans free) (by simp)
  | false =>
      simp only [Bool.false_eq_true, if_false, bind_eq_ok_iff, pure_eq_ok_iff, here _ _, later _ _]
      constructor
      · intro read
        obtain ⟨member, here, others, later, rfl⟩ := read
        exact .data owned here later
      · intro written
        cases written with
        | control other => exact absurd (owned.symm.trans other) (by simp)
        | data _ here later => exact ⟨_, here, _, later, rfl⟩

theorem writes_items_eq_nil_iff {items : List (Value φ)} {types : List (TypeSpec φ)}
    (written : WritesItems items types) : types = [] ↔ items = [] := by
  cases written <;> simp

theorem reads_type_of_flat {value : Value φ} (flat : value.object? = none) : ReadsType value := by
  intro path type
  rw [← plain_type_eq_ok_iff path flat]
  cases value with
  | object ref fields => exact absurd flat (by simp [Value.object?])
  | _ => rfl

theorem reads_type_object {ref : ObjectRef} {fields : List (String × Value φ)}
    (inside : ReadsMembers fields) : ReadsType (.object ref fields) := by
  intro path type
  simp only [readType, bind_eq_ok_iff, pure_eq_ok_iff, inside _ _]
  constructor
  · intro read
    obtain ⟨_, checked, members, inside, rfl⟩ := read
    obtain ⟨filled, uncontrolled⟩ := check_inline_eq_ok_iff.mp checked
    exact .inline filled uncontrolled inside
  · intro written
    cases written with
    | inline filled uncontrolled inside =>
        exact ⟨(), check_inline_eq_ok_iff.mpr ⟨filled, uncontrolled⟩, _, inside, rfl⟩

theorem reads_items_cons {item : Value φ} {rest : List (Value φ)} (here : ReadsType item)
    (later : ReadsItems rest) : ReadsItems (item :: rest) := by
  intro path types
  simp only [readTypeItems, bind_eq_ok_iff, pure_eq_ok_iff, here _ _, later _ _]
  constructor
  · intro read
    obtain ⟨type, here, others, later, rfl⟩ := read
    exact .cons here later
  · intro written
    cases written with
    | cons here later => exact ⟨_, here, _, later, rfl⟩

theorem filled_or_throw_eq_ok_iff {α β : Type} {items : List α} {fault : SchemaFault}
    {made result : β} :
    (do
      if items.isEmpty then throw fault
      return made : Except SchemaFault β) = .ok result ↔ items ≠ [] ∧ made = result := by
  cases items with
  | nil => exact ⟨fun read => (nomatch read), fun filled => absurd rfl filled.1⟩
  | cons item rest =>
      exact ⟨fun read => ⟨by simp, Except.ok.inj read⟩, fun made => congrArg _ made.2⟩

theorem reads_types_array {items : List (Value φ)} (each : ReadsItems items) :
    ReadsTypes (.array items) := by
  intro path types
  simp only [readTypes, bind_eq_ok_iff, each _ _]
  constructor
  · intro read
    obtain ⟨listed, each, read⟩ := read
    obtain ⟨filled, rfl⟩ := filled_or_throw_eq_ok_iff.mp read
    exact .all (mt (writes_items_eq_nil_iff each).mpr filled) each
  · intro written
    cases written with
    | one here => cases here
    | all filled each =>
        exact ⟨_, each, filled_or_throw_eq_ok_iff.mpr
          ⟨mt (writes_items_eq_nil_iff each).mp filled, rfl⟩⟩

/-- One type that is no array is read as it is read among others. -/
theorem read_types_of_single (path : String) {value : Value φ} (single : value.array? = none) :
    readTypes path value = readType path value >>= fun type => pure [type] := by
  cases value with
  | array items => exact absurd single (by simp [Value.array?])
  | object ref fields => simp [readTypes, readType]
  | _ => rfl

theorem reads_types_of_single {value : Value φ} (single : value.array? = none)
    (here : ReadsType value) : ReadsTypes value := by
  intro path types
  simp only [read_types_of_single path single, bind_eq_ok_iff, pure_eq_ok_iff, here _ _]
  constructor
  · intro read
    obtain ⟨type, here, rfl⟩ := read
    exact .one here
  · intro written
    cases written with
    | one here => exact ⟨_, here, rfl⟩
    | all => exact absurd single (by simp [Value.array?])

theorem reads_type_field_cons {key : String} {value : Value φ} {rest : List (String × Value φ)}
    (here : ReadsTypes value) (later : ReadsTypeField rest) :
    ReadsTypeField ((key, value) :: rest) := by
  intro path types
  rw [readTypeField, Entries.get?]
  by_cases typed : key = Control.type.key
  · simp only [typed, if_true, here path types, Option.some.injEq, exists_eq_left']
  · simp only [typed, if_false, later path types]

theorem reads_member_array {items : List (Value φ)} (each : ReadsItems items) :
    ReadsMember (.array items) := by
  intro path member
  simp only [readMember, bind_eq_ok_iff, each _ _]
  constructor
  · intro read
    obtain ⟨listed, each, read⟩ := read
    obtain ⟨filled, rfl⟩ := filled_or_throw_eq_ok_iff.mp read
    exact .anyOf (mt (writes_items_eq_nil_iff each).mpr filled) each
  · intro written
    cases written with
    | single _ here => cases here
    | anyOf filled each =>
        exact ⟨_, each, filled_or_throw_eq_ok_iff.mpr
          ⟨mt (writes_items_eq_nil_iff each).mp filled, rfl⟩⟩

theorem reads_member_of_flat {value : Value φ} (flat : value.object? = none)
    (single : value.array? = none) : ReadsMember value := by
  intro path member
  have reads : readMember path value = .ok member ↔
      ∃ type, plainType path value = .ok type ∧ .single type = member := by
    cases value with
    | object ref fields => exact absurd flat (by simp [Value.object?])
    | array items => exact absurd single (by simp [Value.array?])
    | _ => simp only [readMember, bind_eq_ok_iff, pure_eq_ok_iff]
  simp only [reads, plain_type_eq_ok_iff path flat]
  constructor
  · intro read
    obtain ⟨type, here, rfl⟩ := read
    exact .single flat here
  · intro written
    cases written with
    | single _ here => exact ⟨_, here, rfl⟩
    | anyOf => exact absurd single (by simp [Value.array?])
    | record => exact absurd flat (by simp [Value.object?])
    | nested => exact absurd flat (by simp [Value.object?])

theorem reads_member_untyped {ref : ObjectRef} {fields : List (String × Value φ)}
    (inside : ReadsMembers fields) (untyped : Entries.get? Control.type.key fields = none)
    (path : String) (member : Member φ) :
    readMember path (.object ref fields) = .ok member ↔ WritesMember (.object ref fields) member := by
  simp only [readMember, bind_eq_ok_iff, is_required_eq_ok_iff, read_validators_eq_ok_iff, untyped,
    Option.isSome_none, Bool.false_eq_true, if_false]
  constructor
  · intro read
    obtain ⟨required, flag, validators, registered, read⟩ := read
    split at read
    · exact (nomatch read)
    · rename_i filled
      obtain ⟨members, inner, made⟩ := bind_eq_ok_iff.mp read
      rw [← pure_eq_ok_iff.mp made]
      exact .nested flag registered untyped (by simpa using filled) ((inside _ _).mp inner)
  · intro written
    cases written with
    | single flat => exact absurd flat (by simp [Value.object?])
    | record _ _ typed => exact absurd (untyped.symm.trans typed) (by simp)
    | nested flag registered _ filled written =>
        refine ⟨_, flag, _, registered, ?_⟩
        rw [if_neg (by simpa using filled), bind_eq_ok_iff]
        exact ⟨_, (inside _ _).mpr written, rfl⟩

theorem reads_member_typed {ref : ObjectRef} {fields : List (String × Value φ)} {value : Value φ}
    (types : ReadsTypeField fields) (typed : Entries.get? Control.type.key fields = some value)
    (path : String) (member : Member φ) :
    readMember path (.object ref fields) = .ok member ↔ WritesMember (.object ref fields) member := by
  simp only [readMember, bind_eq_ok_iff, is_required_eq_ok_iff, read_validators_eq_ok_iff, typed,
    Option.isSome_some, if_true]
  constructor
  · intro read
    obtain ⟨required, flag, validators, registered, read⟩ := read
    cases bare : firstDataKey? fields with
    | some key =>
        rw [bare] at read
        exact (nomatch read)
    | none =>
        rw [bare] at read
        obtain ⟨listed, found, made⟩ := bind_eq_ok_iff.mp read
        obtain ⟨other, same, here⟩ := (types _ _).mp found
        rw [← pure_eq_ok_iff.mp made]
        exact .record flag registered same (first_data_key_eq_none_iff.mp bare) here
  · intro written
    cases written with
    | single flat => exact absurd flat (by simp [Value.object?])
    | nested _ _ untyped => exact absurd (typed.symm.trans untyped) (by simp)
    | record flag registered found bare here =>
        refine ⟨_, flag, _, registered, ?_⟩
        rw [first_data_key_eq_none_iff.mpr bare, bind_eq_ok_iff]
        exact ⟨_, (types _ _).mpr ⟨_, found, here⟩, rfl⟩

/-- The step for a property's own object: its flag and validators are read first, then the types
if there are any, or else its fields. -/
theorem reads_member_object {ref : ObjectRef} {fields : List (String × Value φ)}
    (types : ReadsTypeField fields) (inside : ReadsMembers fields) :
    ReadsMember (.object ref fields) := by
  intro path member
  cases found : Entries.get? Control.type.key fields with
  | none => exact reads_member_untyped inside found path member
  | some value => exact reads_member_typed types found path member

mutual

theorem reads_members : (fields : List (String × Value φ)) → ReadsMembers fields
  | [] => by
      intro above members
      rw [readMembers, Except.ok.injEq]
      constructor
      · exact fun same => same ▸ .nil
      · intro written
        cases written
        rfl
  | (_, value) :: rest => reads_members_cons (reads_member value) (reads_members rest)
termination_by structural fields => fields

theorem reads_member : (value : Value φ) → ReadsMember value
  | .object _ fields => reads_member_object (reads_type_field fields) (reads_members fields)
  | .array items => reads_member_array (reads_items items)
  | .undefined | .null | .bool _ | .number _ | .bigint _ | .string _ | .symbol _ | .date _
  | .function _ | .instanceOf _ _ | .schematic _ => reads_member_of_flat rfl rfl
termination_by structural value => value

theorem reads_type_field : (fields : List (String × Value φ)) → ReadsTypeField fields
  | [] => by
      intro path types
      simp [readTypeField, Entries.get?]
  | (_, value) :: rest => reads_type_field_cons (reads_types value) (reads_type_field rest)
termination_by structural fields => fields

theorem reads_types : (value : Value φ) → ReadsTypes value
  | .object _ fields => reads_types_of_single rfl (reads_type_object (reads_members fields))
  | .array items => reads_types_array (reads_items items)
  | .undefined | .null | .bool _ | .number _ | .bigint _ | .string _ | .symbol _ | .date _
  | .function _ | .instanceOf _ _ | .schematic _ =>
      reads_types_of_single rfl (reads_type_of_flat rfl)
termination_by structural value => value

theorem reads_items : (items : List (Value φ)) → ReadsItems items
  | [] => by
      intro path types
      rw [readTypeItems, Except.ok.injEq]
      constructor
      · exact fun same => same ▸ .nil
      · intro written
        cases written
        rfl
  | item :: rest => reads_items_cons (reads_type item) (reads_items rest)
termination_by structural items => items

theorem reads_type : (value : Value φ) → ReadsType value
  | .object _ fields => reads_type_object (reads_members fields)
  | .array _ | .undefined | .null | .bool _ | .number _ | .bigint _ | .string _ | .symbol _
  | .date _ | .function _ | .instanceOf _ _ | .schematic _ => reads_type_of_flat rfl
termination_by structural value => value

end

/-- Reading a value succeeds with the declaration that the value writes. -/
theorem writes_iff {value : Value φ} {declaration : Declaration φ} :
    ofValue value = .ok declaration ↔ Writes value declaration := by
  rw [ofValue.eq_def]
  cases value with
  | object ref fields =>
      simp only [bind_eq_ok_iff, pure_eq_ok_iff, reads_members fields _ _]
      constructor
      · intro read
        obtain ⟨members, inside, rfl⟩ := read
        exact .object inside
      · intro written
        cases written with
        | object inside => exact ⟨_, inside, rfl⟩
  | _ =>
      constructor
      · exact fun read => absurd read (by simp)
      · exact fun written => (nomatch written)

end ObjectShape.Declaration
