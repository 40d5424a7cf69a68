import ObjectShape.Proofs.Declaration.Filled

/-!
# Flaws of a declaration

A declaration is flawed where a list of types is empty, and where a declaration without members is a
type. Building meets the flaws one after the other, from the first member to the last, each before
what follows it, and stops at the first that the policy minds. The path in the fault joins all keys
that lead to the flaw, although building keeps them apart: those down to the declaration at hand are
the label, and those inside it are joined anew.
-/

namespace ObjectShape

set_option autoImplicit false

variable {φ : Type}

inductive Defect where
  /-- A list of types with nothing in it. -/
  | untyped
  /-- A declaration without members. -/
  | vacant
  deriving DecidableEq, Repr, Inhabited

def EmptyPolicy.minds : EmptyPolicy → Defect → Bool
  | .reject, _ => true
  | .disable, .untyped => true
  | .disable, .vacant => false

def Defect.fault (path : Option String) : Defect → SchemaFault
  | .untyped => .invalidPropertyType (path.getD "")
  | .vacant => .emptySchema path

structure Flaw where
  keys : List String
  defect : Defect
  deriving DecidableEq, Repr, Inhabited

namespace Flaw

def under (key : String) (flaw : Flaw) : Flaw :=
  { flaw with keys := key :: flaw.keys }

def fault (flaw : Flaw) : SchemaFault :=
  flaw.defect.fault (Path.extend none flaw.keys)

end Flaw

mutual

def flawsIn : List (String × Member φ) → List Flaw
  | [] => []
  | (key, member) :: rest => (flawsOf member).map (Flaw.under key) ++ flawsIn rest
termination_by structural members => members

def flawsOf : Member φ → List Flaw
  | .single type => flawsOfType type
  | .anyOf types | .record _ types _ =>
      if types.isEmpty then [{ keys := [], defect := .untyped }] else flawsOfTypes types
  | .nested _ _ ⟨members⟩ => flawsIn members
termination_by structural member => member

def flawsOfTypes : List (TypeSpec φ) → List Flaw
  | [] => []
  | type :: rest => flawsOfType type ++ flawsOfTypes rest
termination_by structural types => types

def flawsOfType : TypeSpec φ → List Flaw
  | .inline declaration => declaration.flaws
  | .named _ | .instanceOf _ | .predicate _ | .schematic _ => []
termination_by structural type => type

def Declaration.flaws : Declaration φ → List Flaw
  | ⟨[]⟩ => [{ keys := [], defect := .vacant }]
  | ⟨first :: rest⟩ => flawsIn (first :: rest)
termination_by structural declaration => declaration

end

/-- The keys lead, through objects nested in place and declarations that are types, to a member with
the defect: it lists no types, or one of its types is a declaration without members. -/
inductive Declaration.HasFlaw : Declaration φ → List String → Defect → Prop where
  | untyped {declaration : Declaration φ} {key : String} {member : Member φ}
      (among : (key, member) ∈ declaration.members) (bare : member.isBare = true) :
      HasFlaw declaration [key] .untyped
  | vacant {declaration : Declaration φ} {key : String} {member : Member φ}
      (among : (key, member) ∈ declaration.members) (listed : .inline ⟨[]⟩ ∈ member.types) :
      HasFlaw declaration [key] .vacant
  | inside {declaration inner : Declaration φ} {key : String} {member : Member φ}
      {keys : List String} {defect : Defect} (among : (key, member) ∈ declaration.members)
      (within : inner ∈ member.inner) (further : HasFlaw inner keys defect) :
      HasFlaw declaration (key :: keys) defect

def Member.HasFlaw (member : Member φ) (flaw : Flaw) : Prop :=
  flaw = ⟨[], .untyped⟩ ∧ member.isBare = true ∨
    flaw = ⟨[], .vacant⟩ ∧ .inline ⟨[]⟩ ∈ member.types ∨
      ∃ inner ∈ member.inner, inner.HasFlaw flaw.keys flaw.defect

theorem has_flaw_iff {declaration : Declaration φ} {flaw : Flaw} :
    declaration.HasFlaw flaw.keys flaw.defect ↔
      ∃ entry ∈ declaration.members, ∃ below, entry.2.HasFlaw below ∧ flaw = below.under entry.1 := by
  constructor
  · intro flawed
    obtain ⟨keys, defect⟩ := flaw
    cases flawed with
    | untyped among bare => exact ⟨_, among, ⟨[], _⟩, .inl ⟨rfl, bare⟩, rfl⟩
    | vacant among listed => exact ⟨_, among, ⟨[], _⟩, .inr (.inl ⟨rfl, listed⟩), rfl⟩
    | inside among within further =>
        exact ⟨_, among, ⟨_, _⟩, .inr (.inr ⟨_, within, further⟩), rfl⟩
  · rintro ⟨entry, among, below, flawed, rfl⟩
    rcases flawed with ⟨rfl, bare⟩ | ⟨rfl, listed⟩ | ⟨inner, within, further⟩
    · exact .untyped among bare
    · exact .vacant among listed
    · exact .inside among within further

def Declaration.HasFlawAsType (declaration : Declaration φ) (flaw : Flaw) : Prop :=
  flaw = ⟨[], .vacant⟩ ∧ declaration.members = [] ∨ declaration.HasFlaw flaw.keys flaw.defect

theorem leaf_has_flaw_iff {member : Member φ} {flaw : Flaw}
    (flat : ∀ required validators inner, member ≠ .nested required validators inner) :
    member.HasFlaw flaw ↔ flaw = ⟨[], .untyped⟩ ∧ member.isBare = true ∨
      ∃ inner, .inline inner ∈ member.types ∧ inner.HasFlawAsType flaw := by
  have vacant : .inline ⟨[]⟩ ∈ member.types ↔
      ∃ inner : Declaration φ, .inline inner ∈ member.types ∧ inner.members = [] := by
    constructor
    · exact fun listed => ⟨_, listed, rfl⟩
    · rintro ⟨⟨members⟩, listed, rfl⟩
      exact listed
  simp only [Member.HasFlaw, Declaration.HasFlawAsType, Member.inner_of_leaf flat, mem_inline_iff,
    vacant]
  refine or_congr_right ?_
  constructor
  · rintro (⟨same, inner, listed, empty⟩ | ⟨inner, listed, further⟩)
    · exact ⟨inner, listed, .inl ⟨same, empty⟩⟩
    · exact ⟨inner, listed, .inr further⟩
  · rintro ⟨inner, listed, ⟨same, empty⟩ | further⟩
    · exact .inl ⟨same, inner, listed, empty⟩
    · exact .inr ⟨inner, listed, further⟩

theorem nested_has_flaw_iff {required : Bool} {validators : List (BasicType × List (Function φ))}
    {inner : Declaration φ} {flaw : Flaw} :
    (Member.nested required validators inner).HasFlaw flaw ↔
      inner.HasFlaw flaw.keys flaw.defect := by
  simp [Member.HasFlaw, Member.isBare, Member.types, Member.inner]

theorem mem_flaws_of_listed {types : List (TypeSpec φ)} {flaw : Flaw}
    (each : flaw ∈ flawsOfTypes types ↔
      ∃ inner, .inline inner ∈ types ∧ inner.HasFlawAsType flaw) :
    (flaw ∈ if types.isEmpty then [⟨[], .untyped⟩] else flawsOfTypes types) ↔
      flaw = ⟨[], .untyped⟩ ∧ types.isEmpty = true ∨
        ∃ inner, .inline inner ∈ types ∧ inner.HasFlawAsType flaw := by
  cases types with
  | nil => simp
  | cons type rest => simpa using each

mutual

theorem mem_flaws_in_iff : (members : List (String × Member φ)) → ∀ flaw, flaw ∈ flawsIn members ↔
    ∃ entry ∈ members, ∃ below, entry.2.HasFlaw below ∧ flaw = below.under entry.1
  | [] => fun flaw => by simp [flawsIn]
  | (key, member) :: rest => fun flaw => by
      rw [flawsIn, List.mem_append, List.mem_map, mem_flaws_in_iff rest, List.exists_mem_cons_iff]
      simp only [mem_flaws_of_iff member, eq_comm]
termination_by structural members => members

theorem mem_flaws_of_iff : (member : Member φ) → ∀ flaw, flaw ∈ flawsOf member ↔ member.HasFlaw flaw
  | .single type => fun flaw => by
      rw [flawsOf, leaf_has_flaw_iff (by simp), mem_flaws_of_type_iff type]
      simp [Member.isBare, Member.types, eq_comm]
  | .anyOf types => fun flaw => by
      rw [flawsOf, leaf_has_flaw_iff (by simp)]
      exact mem_flaws_of_listed (mem_flaws_of_types_iff types flaw)
  | .record _ types _ => fun flaw => by
      rw [flawsOf, leaf_has_flaw_iff (by simp)]
      exact mem_flaws_of_listed (mem_flaws_of_types_iff types flaw)
  | .nested _ _ ⟨members⟩ => fun flaw => by
      rw [flawsOf, nested_has_flaw_iff, has_flaw_iff, mem_flaws_in_iff members]
termination_by structural member => member

theorem mem_flaws_of_types_iff : (types : List (TypeSpec φ)) → ∀ flaw, flaw ∈ flawsOfTypes types ↔
    ∃ inner, .inline inner ∈ types ∧ inner.HasFlawAsType flaw
  | [] => fun flaw => by simp [flawsOfTypes]
  | type :: rest => fun flaw => by
      rw [flawsOfTypes, List.mem_append, mem_flaws_of_type_iff type, mem_flaws_of_types_iff rest]
      simp only [List.mem_cons, or_and_right, exists_or, eq_comm]
termination_by structural types => types

theorem mem_flaws_of_type_iff : (type : TypeSpec φ) → ∀ flaw, flaw ∈ flawsOfType type ↔
    ∃ inner, type = .inline inner ∧ inner.HasFlawAsType flaw
  | .named _ | .instanceOf _ | .predicate _ | .schematic _ => fun flaw => by simp [flawsOfType]
  | .inline declaration => fun flaw => by
      rw [flawsOfType, mem_flaws_iff declaration]
      simp
termination_by structural type => type

theorem mem_flaws_iff : (declaration : Declaration φ) → ∀ flaw,
    flaw ∈ declaration.flaws ↔ declaration.HasFlawAsType flaw
  | ⟨[]⟩ => fun flaw => by
      rw [Declaration.flaws, Declaration.HasFlawAsType, has_flaw_iff]
      simp
  | ⟨first :: rest⟩ => fun flaw => by
      rw [Declaration.flaws, mem_flaws_in_iff (first :: rest), Declaration.HasFlawAsType,
        has_flaw_iff]
      simp
termination_by structural declaration => declaration

end

namespace Path

def FilledKeys (keys : List String) : Prop :=
  ∀ key ∈ keys, key ≠ ""

instance (keys : List String) : Decidable (FilledKeys keys) :=
  inferInstanceAs (Decidable (∀ key ∈ keys, key ≠ ""))

/-- The path below a label, or the label itself where there is none. -/
def below (label : Option String) : Option String → Option String
  | none => label
  | some path => some (join label path)

/-- A key below a path, as joined under the label and as joined under both. -/
theorem join_below {label above : Option String} (filled : above ≠ some "") (key : String) :
    join (below label above) key = join label (join above key) := by
  cases above with
  | none => rfl
  | some path =>
      have pathFilled : path ≠ "" := fun empty => filled (congrArg some empty)
      cases label with
      | none => rfl
      | some front =>
          by_cases empty : front = ""
          · subst empty
            rfl
          · have joined : join (some front) path ≠ "" := join_some_ne_empty path empty
            rw [below, join_some key joined, join_some path empty, join_some key pathFilled,
              join_some _ empty]
            simp only [String.append_assoc]

end Path

/-- The fault of the first flaw that the policy minds, its keys joined below a path. -/
def firstFault (policy : EmptyPolicy) (above : Option String) (flaws : List Flaw) :
    Option SchemaFault :=
  (flaws.find? fun flaw => policy.minds flaw.defect).map fun flaw =>
    flaw.defect.fault (Path.extend above flaw.keys)

theorem first_fault_append (policy : EmptyPolicy) (above : Option String)
    (earlier later : List Flaw) :
    firstFault policy above (earlier ++ later) =
      (firstFault policy above earlier).or (firstFault policy above later) := by
  rw [firstFault, List.find?_append, Option.map_or]
  rfl

theorem first_fault_under (policy : EmptyPolicy) (above : Option String) (key : String)
    (flaws : List Flaw) :
    firstFault policy above (flaws.map (Flaw.under key)) =
      firstFault policy (some (Path.join above key)) flaws := by
  rw [firstFault, List.find?_map, Option.map_map]
  rfl

/-- The run fails with the fault, or has a result if there is none. -/
def Stops {α : Type} (run : Except SchemaFault α) : Option SchemaFault → Prop
  | none => ∃ result, run = .ok result
  | some fault => run = .error fault

section Steps

variable {α β : Type} {run : Except SchemaFault α} {next : α → Except SchemaFault β}

theorem stops_bind {fault later : Option SchemaFault} (here : Stops run fault)
    (onwards : ∀ result, Stops (next result) later) : Stops (run >>= next) (fault.or later) := by
  cases fault with
  | none =>
      obtain ⟨result, rfl⟩ := here
      exact onwards result
  | some fault =>
      obtain rfl := here
      rfl

theorem stops_map {make : α → β} {fault : Option SchemaFault} (here : Stops run fault) :
    Stops (run >>= fun result => pure (make result)) fault := by
  have made : ∀ result, Stops (pure (make result) : Except SchemaFault β) none :=
    fun result => ⟨make result, rfl⟩
  have stopped := stops_bind here made
  rwa [Option.or_none] at stopped

end Steps

namespace Shape

def BuildStops (declaration : Declaration φ) : Prop :=
  declaration.EveryLevel Path.FilledKeys → ∀ policy label sorted,
    Stops (build policy label sorted declaration) (firstFault policy label declaration.flaws)

def LayOutStops (members : List (String × Member φ)) : Prop :=
  (∀ entry ∈ members, entry.1 ≠ "" ∧ ∀ inner ∈ entry.2.inner, inner.EveryLevel Path.FilledKeys) →
    ∀ policy label above, above ≠ some "" →
      Stops (layOut policy label above members)
        (firstFault policy (Path.below label above) (flawsIn members))

def LayOutMemberStops (member : Member φ) : Prop :=
  (∀ inner ∈ member.inner, inner.EveryLevel Path.FilledKeys) →
    ∀ policy label path, path ≠ "" →
      Stops (layOutMember policy label path member)
        (firstFault policy (some (Path.join label path)) (flawsOf member))

def ResolveLaterStops (types : List (TypeSpec φ)) : Prop :=
  (∀ inner ∈ types.filterMap TypeSpec.inline?, inner.EveryLevel Path.FilledKeys) →
    ∀ policy place, Stops (resolveLater policy place types)
      (firstFault policy (some place) (flawsOfTypes types))

def ResolveStops (type : TypeSpec φ) : Prop :=
  (∀ inner ∈ type.inline?, inner.EveryLevel Path.FilledKeys) →
    ∀ policy place, Stops (resolve policy place type)
      (firstFault policy (some place) (flawsOfType type))

/-- The condition at every level, said of the members of one. -/
theorem filled_members {members : List (String × Member φ)}
    (filled : Declaration.EveryLevel Path.FilledKeys ⟨members⟩) : ∀ entry ∈ members,
      entry.1 ≠ "" ∧ ∀ inner ∈ entry.2.inner, inner.EveryLevel Path.FilledKeys := by
  obtain ⟨here, further⟩ := filled
  exact fun entry member => ⟨here _ (List.mem_map_of_mem member), further entry member⟩

theorem resolve_all_stops {types : List (TypeSpec φ)} (each : ResolveLaterStops types)
    (filled : ∀ inner ∈ types.filterMap TypeSpec.inline?, inner.EveryLevel Path.FilledKeys)
    (policy : EmptyPolicy) (place : String) :
    Stops (resolveAll policy place types) (firstFault policy (some place)
      (if types.isEmpty then [⟨[], .untyped⟩] else flawsOfTypes types)) := by
  cases types with
  | nil => cases policy <;> rfl
  | cons type rest => exact each filled policy place

mutual

theorem build_stops : (declaration : Declaration φ) → BuildStops declaration
  | ⟨[]⟩ => by
      intro _ policy label sorted
      cases policy with
      | reject => rfl
      | disable => exact ⟨disabled, rfl⟩
  | ⟨first :: rest⟩ => by
      intro filled policy label sorted
      have inside := filled_members filled
      exact stops_map (lay_out_stops (first :: rest) inside policy label none (by simp))
termination_by structural declaration => declaration

theorem lay_out_stops : (members : List (String × Member φ)) → LayOutStops members
  | [] => by
      intro _ policy label above _
      exact ⟨[], rfl⟩
  | (key, member) :: rest => by
      intro filled policy label above aboveFilled
      obtain ⟨⟨keyFilled, inside⟩, later⟩ := List.forall_mem_cons.mp filled
      have own := lay_out_member_stops member inside policy label (Path.join above key)
        (Path.join_ne_empty above keyFilled)
      rw [← Path.join_below aboveFilled, ← first_fault_under] at own
      have others := lay_out_stops rest later policy label above aboveFilled
      rw [flawsIn, first_fault_append]
      exact stops_bind own fun declared => stops_map others
termination_by structural members => members

theorem lay_out_member_stops : (member : Member φ) → LayOutMemberStops member
  | .single type => by
      intro filled policy label path _
      exact stops_map (resolve_stops type (TypeSpec.forall_inline_singleton_iff.mp filled) policy _)
  | .anyOf types => by
      intro filled policy label path _
      exact stops_map (resolve_all_stops (resolve_later_stops types) filled policy _)
  | .record _ types _ => by
      intro filled policy label path _
      exact stops_map (resolve_all_stops (resolve_later_stops types) filled policy _)
  | .nested _ _ ⟨members⟩ => by
      intro filled policy label path pathFilled
      have inside := filled_members (List.forall_mem_singleton.mp filled)
      exact stops_map (lay_out_stops members inside policy label (some path) (by simpa))
termination_by structural member => member

theorem resolve_later_stops : (types : List (TypeSpec φ)) → ResolveLaterStops types
  | [] => by
      intro _ policy place
      exact ⟨[], rfl⟩
  | type :: rest => by
      intro filled policy place
      obtain ⟨here, later⟩ := TypeSpec.forall_inline_cons_iff.mp filled
      rw [flawsOfTypes, first_fault_append]
      exact stops_bind (resolve_stops type here policy place) fun choice =>
        stops_map (resolve_later_stops rest later policy place)
termination_by structural types => types

theorem resolve_stops : (type : TypeSpec φ) → ResolveStops type
  | .named _ | .instanceOf _ | .predicate _ | .schematic _ => fun _ _ _ => ⟨_, rfl⟩
  | .inline declaration => by
      intro filled policy place
      exact stops_map (build_stops declaration (filled declaration rfl) policy (some place) false)
termination_by structural type => type

end

end Shape

namespace Declaration

theorem error_iff_of_stops {α : Type} {run : Except SchemaFault α} {stop : Option SchemaFault}
    (stops : Stops run stop) (fault : SchemaFault) : run = .error fault ↔ stop = some fault := by
  cases stop with
  | none =>
      obtain ⟨result, rfl⟩ := stops
      simp
  | some other =>
      obtain rfl := stops
      simp

/-- The policy minds that the declaration itself is vacant, or a flaw inside it. -/
theorem minded_flaw_iff (policy : EmptyPolicy) (declaration : Declaration φ) :
    (∃ flaw ∈ declaration.flaws, policy.minds flaw.defect = true) ↔
      policy = .reject ∧ declaration.members = [] ∨
        ∃ keys defect, policy.minds defect = true ∧ declaration.HasFlaw keys defect := by
  have rejects : policy.minds .vacant = true ↔ policy = .reject := by
    cases policy <;> simp [EmptyPolicy.minds]
  simp only [mem_flaws_iff, HasFlawAsType]
  constructor
  · rintro ⟨flaw, ⟨rfl, empty⟩ | flawed, minded⟩
    · exact .inl ⟨rejects.mp minded, empty⟩
    · exact .inr ⟨_, _, minded, flawed⟩
  · rintro (⟨strict, empty⟩ | ⟨keys, defect, minded, flawed⟩)
    · exact ⟨⟨[], .vacant⟩, .inl ⟨rfl, empty⟩, rejects.mpr strict⟩
    · exact ⟨⟨keys, defect⟩, .inr flawed, minded⟩

/-- The nested `a` says nothing, which is no flaw. Behind `b.c` there is first a declaration without
members, then a list without types, and a further flaw follows under `f`. -/
def flawed : Declaration Empty :=
  ⟨[("a", .nested true [] ⟨[]⟩),
    ("b", .nested true [] ⟨[("c", .anyOf [.named .null,
      .inline ⟨[("d", .single (.inline ⟨[]⟩)), ("e", .record false [] [])]⟩])]⟩),
    ("f", .anyOf [])]⟩

theorem flawed_filled : flawed.EveryLevel Path.FilledKeys := by decide

/-- Compiling a declaration whose keys are all filled fails where the declaration is vacant or has a
flaw that the policy minds, and the fault is that of the first such flaw. -/
theorem compile_error_iff_flawed (policy : EmptyPolicy) (declaration : Declaration φ)
    (filled : declaration.EveryLevel Path.FilledKeys) :
    ((∃ fault, declaration.compile policy = .error fault) ↔
        policy = .reject ∧ declaration.members = [] ∨
          ∃ keys defect, policy.minds defect = true ∧ declaration.HasFlaw keys defect) ∧
      (∀ fault, declaration.compile policy = .error fault ↔
        ∃ flaw, (declaration.flaws.find? fun flaw => policy.minds flaw.defect) = some flaw ∧
          flaw.fault = fault) ∧
      ∀ flaw, flaw ∈ declaration.flaws ↔
        flaw = ⟨[], .vacant⟩ ∧ declaration.members = [] ∨
          declaration.HasFlaw flaw.keys flaw.defect := by
  have stops := Shape.build_stops declaration filled policy none true
  have first : ∀ fault, declaration.compile policy = .error fault ↔
      ∃ flaw, (declaration.flaws.find? fun flaw => policy.minds flaw.defect) = some flaw ∧
        flaw.fault = fault := by
    intro fault
    rw [compile, error_iff_of_stops stops, firstFault, Option.map_eq_some_iff]
    rfl
  refine ⟨?_, first, mem_flaws_iff declaration⟩
  rw [← minded_flaw_iff]
  simp only [first]
  constructor
  · rintro ⟨_, flaw, found, rfl⟩
    have minded := List.find?_some found
    exact ⟨flaw, List.mem_of_find?_eq_some found, minded⟩
  · rintro ⟨flaw, member, minded⟩
    have some : (declaration.flaws.find? fun flaw => policy.minds flaw.defect).isSome = true :=
      List.find?_isSome.mpr ⟨flaw, member, minded⟩
    obtain ⟨other, found⟩ := Option.isSome_iff_exists.mp some
    exact ⟨_, other, found, rfl⟩

theorem flawed_compile_errors :
    flawed.EveryLevel Path.FilledKeys ∧
      flawed.flaws = [⟨["b", "c", "d"], .vacant⟩, ⟨["b", "c", "e"], .untyped⟩, ⟨["f"], .untyped⟩] ∧
      flawed.compile .reject = .error (.emptySchema (some "b.c.d")) ∧
      flawed.compile .disable = .error (.invalidPropertyType "b.c.e") := by
  obtain ⟨_, strict, _⟩ := compile_error_iff_flawed .reject flawed flawed_filled
  obtain ⟨_, lenient, _⟩ := compile_error_iff_flawed .disable flawed flawed_filled
  exact ⟨flawed_filled, by cbv, (strict _).mpr ⟨⟨["b", "c", "d"], .vacant⟩, by cbv, by cbv⟩,
    (lenient _).mpr ⟨⟨["b", "c", "e"], .untyped⟩, by cbv, by cbv⟩⟩

end Declaration

end ObjectShape
