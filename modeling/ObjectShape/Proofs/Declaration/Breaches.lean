import ObjectShape.Proofs.Declaration.Grammar

/-!
# Breaches of the notation

What a property's own notation breaks, in the order in which the rules are looked at: the flag, the
validators, the keys beside the types, the types one after the other, and emptiness. A property that
breaks none of them may still hold others that do; those it opens.
-/

namespace ObjectShape.Declaration

set_option autoImplicit false

variable {φ : Type}

/-- One of the items is bad, and all before it are fine. -/
def FirstAmong {α : Type} (fine bad : α → Prop) : List α → Prop
  | [] => False
  | item :: rest => bad item ∨ fine item ∧ FirstAmong fine bad rest

def Registers (entry : String × Value φ) : Prop :=
  (BasicType.ofName? entry.1).isSome = true ∧ HoldsFunctions entry.2

inductive RegistrationBreaks (path : String) : String × Value φ → SchemaFault → Prop where
  | unknown {name : String} {value : Value φ} (unnamed : BasicType.ofName? name = none) :
      RegistrationBreaks path (name, value) (.unknownValidator path name)
  | invalid {name : String} {value : Value φ}
      (named : (BasicType.ofName? name).isSome = true) (unusable : ¬ HoldsFunctions value) :
      RegistrationBreaks path (name, value) (.invalidValidator path name)

inductive ValidatorsBreak (path : String) : Option (Value φ) → SchemaFault → Prop where
  | unfit {value : Value φ} (given : value.isUndefined = false ∧ value.isNull = false)
      (flat : value.object? = none) : ValidatorsBreak path (some value) (.invalidValidators path)
  | entry {ref : ObjectRef} {fields : List (String × Value φ)} {fault : SchemaFault}
      (first : FirstAmong Registers (fun entry => RegistrationBreaks path entry fault) fields) :
      ValidatorsBreak path (some (.object ref fields)) fault

/-- What is wrong with a value as a type, other than inside an object. -/
inductive AlternativeBreaks (path : String) : Value φ → SchemaFault → Prop where
  | unknown {value : Value φ} (flat : value.object? = none) (other : ¬ IsAlternative value) :
      AlternativeBreaks path value (.invalidPropertyType path)
  | empty (ref : ObjectRef) : AlternativeBreaks path (.object ref []) (.emptySchema (some path))
  | controlled {ref : ObjectRef} {fields : List (String × Value φ)} {control : Control}
      (filled : fields ≠ [])
      (first : FirstAmong (fun other : Control => Entries.get? other.key fields = none)
        (fun other => other = control ∧ (Entries.get? other.key fields).isSome = true) Control.all) :
      AlternativeBreaks path (.object ref fields) (.disallowedProperty path control)

inductive TypesBreak (path : String) : Value φ → SchemaFault → Prop where
  | none : TypesBreak path (.array []) (.invalidPropertyType path)
  | among {items : List (Value φ)} {fault : SchemaFault}
      (first : FirstAmong IsAlternative (fun item => AlternativeBreaks path item fault) items) :
      TypesBreak path (.array items) fault
  | one {value : Value φ} {fault : SchemaFault} (single : value.array? = none)
      (broken : AlternativeBreaks path value fault) : TypesBreak path value fault

/-- The rule of the fault is the first that the property at the path breaks. -/
inductive Breaks (path : String) : Value φ → SchemaFault → Prop where
  | flag {ref : ObjectRef} {fields : List (String × Value φ)} (broken : ¬ HasFlag fields) :
      Breaks path (.object ref fields) (.invalidRequired path)
  | validators {ref : ObjectRef} {fields : List (String × Value φ)} {fault : SchemaFault}
      (flag : HasFlag fields)
      (broken : ValidatorsBreak path (Entries.get? Control.validators.key fields) fault) :
      Breaks path (.object ref fields) fault
  | beside {ref : ObjectRef} {fields : List (String × Value φ)} {key : String}
      (flag : HasFlag fields) (registered : HasValidators fields)
      (typed : (Entries.get? Control.type.key fields).isSome = true)
      (first : FirstAmong (fun other => Control.owns other = true)
        (fun other => other = key ∧ Control.owns other = false) (Entries.keys fields)) :
      Breaks path (.object ref fields) (.unexpectedProperty path key)
  | types {ref : ObjectRef} {fields : List (String × Value φ)} {value : Value φ}
      {fault : SchemaFault} (flag : HasFlag fields) (registered : HasValidators fields)
      (typed : Entries.get? Control.type.key fields = some value)
      (bare : ∀ key ∈ Entries.keys fields, Control.owns key = true)
      (broken : TypesBreak path value fault) : Breaks path (.object ref fields) fault
  | empty (ref : ObjectRef) : Breaks path (.object ref []) (.emptySchema (some path))
  | listed {value : Value φ} {fault : SchemaFault} (flat : value.object? = none)
      (broken : TypesBreak path value fault) : Breaks path value fault

/-- The value as a type is an object with the fields, and nothing but they can be wrong with it. -/
inductive AlternativeOpens : Value φ → List (String × Value φ) → Prop where
  | inline {ref : ObjectRef} {fields : List (String × Value φ)} (filled : fields ≠ [])
      (uncontrolled : ∀ control : Control, Entries.get? control.key fields = none) :
      AlternativeOpens (.object ref fields) fields

inductive TypesOpen : Value φ → List (String × Value φ) → Prop where
  | among {items : List (Value φ)} {inner : List (String × Value φ)}
      (first : FirstAmong IsAlternative (fun item => AlternativeOpens item inner) items) :
      TypesOpen (.array items) inner
  | one {value : Value φ} {inner : List (String × Value φ)} (opens : AlternativeOpens value inner) :
      TypesOpen value inner

/-- The property breaks no rule of its own before the fields inside it are looked at: those of an
object nested in place, or of one that is a type. -/
inductive Opens : Value φ → List (String × Value φ) → Prop where
  | nested {ref : ObjectRef} {fields : List (String × Value φ)} (flag : HasFlag fields)
      (registered : HasValidators fields)
      (untyped : Entries.get? Control.type.key fields = none) (filled : fields ≠ []) :
      Opens (.object ref fields) fields
  | types {ref : ObjectRef} {fields : List (String × Value φ)} {value : Value φ}
      {inner : List (String × Value φ)} (flag : HasFlag fields) (registered : HasValidators fields)
      (typed : Entries.get? Control.type.key fields = some value)
      (bare : ∀ key ∈ Entries.keys fields, Control.owns key = true)
      (opens : TypesOpen value inner) : Opens (.object ref fields) inner
  | listed {value : Value φ} {inner : List (String × Value φ)} (flat : value.object? = none)
      (opens : TypesOpen value inner) : Opens value inner

theorem bind_eq_error_iff {α β : Type} {first : Except SchemaFault α}
    {next : α → Except SchemaFault β} {fault : SchemaFault} :
    (first >>= next) = .error fault ↔
      first = .error fault ∨ ∃ value, first = .ok value ∧ next value = .error fault := by
  cases first with
  | error other => simp [bind, Except.bind]
  | ok value => simp [bind, Except.bind]

/-- A run that can only fail in one way fails just where it has no result. -/
theorem error_iff_of_only {α : Type} {run : Except SchemaFault α} {fine : Prop}
    {only fault : SchemaFault} (succeeds : (∃ result, run = .ok result) ↔ fine)
    (faults : ∀ other, run = .error other → other = only) :
    run = .error fault ↔ ¬ fine ∧ fault = only := by
  cases run with
  | ok result =>
      have holds := succeeds.mp ⟨result, rfl⟩
      simp [holds]
  | error other =>
      have fails : ¬ fine := fun holds => by simpa using succeeds.mpr holds
      obtain rfl := faults other rfl
      simp [fails, eq_comm]

section FirstAmong

variable {α : Type} {fine bad : α → Prop}

theorem first_among_congr {otherFine otherBad : α → Prop} (items : List α)
    (fines : ∀ item, fine item ↔ otherFine item) (bads : ∀ item, bad item ↔ otherBad item) :
    FirstAmong fine bad items ↔ FirstAmong otherFine otherBad items := by
  induction items with
  | nil => rfl
  | cons item rest ih => rw [FirstAmong, FirstAmong, fines, bads, ih]

theorem first_among_or {other : α → Prop} (items : List α) :
    FirstAmong fine (fun item => bad item ∨ other item) items ↔
      FirstAmong fine bad items ∨ FirstAmong fine other items := by
  induction items with
  | nil => simp [FirstAmong]
  | cons item rest ih =>
      rw [FirstAmong, FirstAmong, FirstAmong, ih, and_or_left, or_or_or_comm]

theorem first_among_exists {β : Type} {related : α → β → Prop} {holds : β → Prop}
    (items : List α) :
    FirstAmong fine (fun item => ∃ result, related item result ∧ holds result) items ↔
      ∃ result, FirstAmong fine (fun item => related item result) items ∧ holds result := by
  induction items with
  | nil => simp [FirstAmong]
  | cons item rest ih =>
      simp only [FirstAmong, ih]
      constructor
      · rintro (⟨result, here, held⟩ | ⟨formed, result, later, held⟩)
        · exact ⟨result, .inl here, held⟩
        · exact ⟨result, .inr ⟨formed, later⟩, held⟩
      · rintro ⟨result, here | ⟨formed, later⟩, held⟩
        · exact .inl ⟨result, here, held⟩
        · exact .inr ⟨formed, result, later, held⟩

/-- The first item found by a test is the first that passes it. -/
theorem find_eq_some_iff_first {test : α → Bool} {items : List α} {found : α} :
    items.find? test = some found ↔
      FirstAmong (fun item => test item = false) (fun item => item = found ∧ test item = true)
        items := by
  induction items with
  | nil => simp [FirstAmong]
  | cons item rest ih =>
      rw [List.find?_cons, FirstAmong, ← ih]
      cases test item <;> simp

end FirstAmong

theorem is_required_eq_error_iff {path : String} {fields : List (String × Value φ)}
    {fault : SchemaFault} :
    isRequired path fields = .error fault ↔ ¬ HasFlag fields ∧ fault = .invalidRequired path := by
  apply error_iff_of_only
  · simp only [is_required_eq_ok_iff, has_flag_iff]
  · intro other failed
    rw [isRequired] at failed
    split at failed
    · cases failed
    · cases failed
    · exact (Except.error.inj failed).symm

theorem map_m_fault {α β : Type} {step : α → Except SchemaFault β} {only other : SchemaFault}
    (each : ∀ item fault, step item = .error fault → fault = only) {items : List α}
    (failed : items.mapM step = .error other) : other = only := by
  induction items with
  | nil => cases failed
  | cons item rest ih =>
      rw [List.mapM_cons] at failed
      rcases bind_eq_error_iff.mp failed with here | ⟨_, _, failed⟩
      · exact each item other here
      · rcases bind_eq_error_iff.mp failed with later | ⟨_, _, made⟩
        · exact ih later
        · cases made

theorem read_functions_eq_error_iff {path name : String} {value : Value φ} {fault : SchemaFault} :
    readFunctions path name value = .error fault ↔
      ¬ HoldsFunctions value ∧ fault = .invalidValidator path name := by
  apply error_iff_of_only
  · simp only [read_functions_eq_ok_iff, holds_functions_iff]
  · intro other failed
    rw [readFunctions.eq_def] at failed
    cases value with
    | function function => cases failed
    | array items =>
        apply map_m_fault _ failed
        intro item fault here
        cases item with
        | function function => cases here
        | _ => exact (Except.error.inj here).symm
    | _ => exact (Except.error.inj failed).symm

theorem read_functions_ok_iff {path name : String} {value : Value φ} :
    (∃ functions, readFunctions path name value = .ok functions) ↔ HoldsFunctions value := by
  simp only [read_functions_eq_ok_iff, holds_functions_iff]

theorem registration_breaks_iff_of_unnamed {path name : String} {value : Value φ}
    {fault : SchemaFault} (unnamed : BasicType.ofName? name = none) :
    RegistrationBreaks path (name, value) fault ↔ fault = .unknownValidator path name := by
  constructor
  · intro broken
    cases broken with
    | unknown => rfl
    | invalid named => exact absurd named (by simp [unnamed])
  · rintro rfl
    exact .unknown unnamed

theorem registration_breaks_iff_of_named {path name : String} {value : Value φ}
    {fault : SchemaFault} {type : BasicType} (named : BasicType.ofName? name = some type) :
    RegistrationBreaks path (name, value) fault ↔
      ¬ HoldsFunctions value ∧ fault = .invalidValidator path name := by
  constructor
  · intro broken
    cases broken with
    | unknown unnamed => exact absurd (unnamed.symm.trans named) (by simp)
    | invalid _ unusable => exact ⟨unusable, rfl⟩
  · rintro ⟨unusable, rfl⟩
    exact .invalid (Option.isSome_iff_exists.mpr ⟨type, named⟩) unusable

theorem read_validator_fields_eq_error_iff {path : String}
    {known : List (BasicType × List (Function φ))} {fields : List (String × Value φ)}
    {fault : SchemaFault} :
    readValidatorFields path known fields = .error fault ↔
      FirstAmong Registers (fun entry => RegistrationBreaks path entry fault) fields := by
  induction fields generalizing known with
  | nil => simp [readValidatorFields, FirstAmong]
  | cons field rest ih =>
      obtain ⟨name, value⟩ := field
      rw [readValidatorFields, FirstAmong]
      cases named : BasicType.ofName? name with
      | none =>
          rw [registration_breaks_iff_of_unnamed named]
          simp [Registers, named, eq_comm]
      | some type =>
          rw [registration_breaks_iff_of_named named]
          simp only [bind_eq_error_iff, read_functions_eq_error_iff, ih, exists_and_right,
            read_functions_ok_iff, Registers, named, Option.isSome_some, true_and]

theorem read_validators_eq_error_iff {path : String} {value : Option (Value φ)}
    {fault : SchemaFault} :
    readValidators path value = .error fault ↔ ValidatorsBreak path value fault := by
  constructor
  · intro failed
    rw [readValidators.eq_def] at failed
    rcases value with _ | value
    · cases failed
    · cases value with
      | undefined => cases failed
      | null => cases failed
      | object ref fields => exact .entry (read_validator_fields_eq_error_iff.mp failed)
      | _ =>
          rw [← Except.error.inj failed]
          exact .unfit ⟨rfl, rfl⟩ rfl
  · intro broken
    cases broken with
    | @unfit value given flat =>
        cases value with
        | undefined => exact absurd given.1 Bool.noConfusion
        | null => exact absurd given.2 Bool.noConfusion
        | object ref fields => exact absurd flat (by simp [Value.object?])
        | _ => rfl
    | entry first => exact read_validator_fields_eq_error_iff.mpr first

theorem plain_type_ok_iff (path : String) {value : Value φ} (flat : value.object? = none) :
    (∃ type, plainType path value = .ok type) ↔ IsAlternative value := by
  simp only [plain_type_eq_ok_iff path flat]
  constructor
  · rintro ⟨type, written⟩
    exact alternative_of_writes written
  · exact writes_of_alternative

theorem plain_type_eq_error_iff (path : String) {value : Value φ} {fault : SchemaFault}
    (flat : value.object? = none) :
    plainType path value = .error fault ↔ AlternativeBreaks path value fault := by
  have reads : plainType path value = .error fault ↔
      ¬ IsAlternative value ∧ fault = .invalidPropertyType path := by
    apply error_iff_of_only (plain_type_ok_iff path flat)
    intro other failed
    rw [plainType.eq_def] at failed
    split at failed
    · split at failed
      · cases failed
      · exact (Except.error.inj failed).symm
    · cases failed
    · cases failed
    · exact (Except.error.inj failed).symm
  rw [reads]
  constructor
  · rintro ⟨other, rfl⟩
    exact .unknown flat other
  · intro broken
    cases broken with
    | unknown _ other => exact ⟨other, rfl⟩
    | empty => exact absurd flat (by simp [Value.object?])
    | controlled => exact absurd flat (by simp [Value.object?])

/-- The first control that an object given as a type carries. -/
theorem find_control_eq_some_iff {fields : List (String × Value φ)} {control : Control} :
    (Control.all.find? fun other => (Entries.get? other.key fields).isSome) = some control ↔
      FirstAmong (fun other : Control => Entries.get? other.key fields = none)
        (fun other => other = control ∧ (Entries.get? other.key fields).isSome = true)
        Control.all := by
  rw [find_eq_some_iff_first]
  exact first_among_congr _ (fun other => by simp) fun other => Iff.rfl

theorem check_inline_eq_error_iff (ref : ObjectRef) {path : String}
    {fields : List (String × Value φ)} {fault : SchemaFault} :
    checkInline path fields = .error fault ↔ AlternativeBreaks path (.object ref fields) fault := by
  constructor
  · intro failed
    rw [checkInline] at failed
    split at failed
    · rename_i none
      obtain rfl := List.isEmpty_iff.mp none
      rw [← Except.error.inj failed]
      exact .empty ref
    · rename_i some
      split at failed
      · rename_i control found
        rw [← Except.error.inj failed]
        exact .controlled (by simpa using some) (find_control_eq_some_iff.mp found)
      · cases failed
  · intro broken
    cases broken with
    | unknown flat => exact absurd flat (by simp [Value.object?])
    | empty => rfl
    | controlled filled first =>
        rw [checkInline, if_neg (by simpa using filled), find_control_eq_some_iff.mpr first]

theorem first_data_key_eq_some_iff {fields : List (String × Value φ)} {key : String} :
    firstDataKey? fields = some key ↔
      FirstAmong (fun other => Control.owns other = true)
        (fun other => other = key ∧ Control.owns other = false) (Entries.keys fields) := by
  rw [firstDataKey?, find_eq_some_iff_first]
  exact first_among_congr _ (fun other => by simp) fun other => by simp

theorem path_of_registration_breaks {path : String} {entry : String × Value φ}
    {fault : SchemaFault} (broken : RegistrationBreaks path entry fault) :
    fault.path? = some path := by
  cases broken <;> rfl

theorem path_of_alternative_breaks {path : String} {value : Value φ} {fault : SchemaFault}
    (broken : AlternativeBreaks path value fault) : fault.path? = some path := by
  cases broken <;> rfl

theorem exists_of_first_among {α : Type} {fine bad : α → Prop} {items : List α}
    (first : FirstAmong fine bad items) : ∃ item ∈ items, bad item := by
  induction items with
  | nil => exact first.elim
  | cons item rest ih =>
      rcases first with here | ⟨_, later⟩
      · exact ⟨item, List.mem_cons_self, here⟩
      · obtain ⟨other, among, bad⟩ := ih later
        exact ⟨other, List.mem_cons_of_mem _ among, bad⟩

theorem path_of_validators_break {path : String} {value : Option (Value φ)} {fault : SchemaFault}
    (broken : ValidatorsBreak path value fault) : fault.path? = some path := by
  cases broken with
  | unfit => rfl
  | entry first =>
      obtain ⟨entry, _, broken⟩ := exists_of_first_among first
      exact path_of_registration_breaks broken

theorem path_of_types_break {path : String} {value : Value φ} {fault : SchemaFault}
    (broken : TypesBreak path value fault) : fault.path? = some path := by
  cases broken with
  | none => rfl
  | among first =>
      obtain ⟨item, _, broken⟩ := exists_of_first_among first
      exact path_of_alternative_breaks broken
  | one _ broken => exact path_of_alternative_breaks broken

/-- Every fault names the property at fault. -/
theorem path_of_breaks {path : String} {property : Value φ} {fault : SchemaFault}
    (broken : Breaks path property fault) : fault.path? = some path := by
  cases broken with
  | flag | beside | empty => rfl
  | validators _ broken => exact path_of_validators_break broken
  | types _ _ _ _ broken => exact path_of_types_break broken
  | listed _ broken => exact path_of_types_break broken

end ObjectShape.Declaration
