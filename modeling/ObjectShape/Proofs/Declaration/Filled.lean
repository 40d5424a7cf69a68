import ObjectShape.Proofs.Declaration.Drafts
import ObjectShape.Proofs.Shape.WellFormed

/-!
# Filled declarations

Compiling fails for two reasons: a property lists no types, or a declaration has no properties. The
object notation cannot write either of them but for the whole schema, so whatever can be read can be
compiled.
-/

namespace ObjectShape

set_option autoImplicit false

variable {φ : Type}

/-- The member has a list of types with nothing in it. -/
def Member.isBare : Member φ → Bool
  | .single _ | .nested _ _ _ => false
  | .anyOf types | .record _ types _ => types.isEmpty

/-- Every list of types holds at least one, and every declaration inside has members, at any depth.
The declaration itself may be empty. -/
inductive Declaration.Filled : Declaration φ → Prop where
  | of {declaration : Declaration φ}
      (typed : ∀ entry ∈ placements none declaration.members, entry.2.isBare = false)
      (inhabited : ∀ inner, declaration.Lists inner → inner.members ≠ [])
      (inside : ∀ inner, declaration.Lists inner → Filled inner) : Filled declaration

structure Member.IsFilled (member : Member φ) : Prop where
  typed : member.isBare = false
  inside : ∀ inner, .inline inner ∈ member.types → inner.members ≠ [] ∧ inner.Filled

theorem filled_of_members {members : List (String × Member φ)}
    (filled : ∀ entry ∈ placements none members, entry.2.IsFilled) :
    Declaration.Filled ⟨members⟩ := by
  refine .of (fun entry member => (filled entry member).typed) ?_ ?_
  · intro inner lists
    obtain ⟨entry, member, listed⟩ := lists
    exact ((filled entry member).inside inner listed).1
  · intro inner lists
    obtain ⟨entry, member, listed⟩ := lists
    exact ((filled entry member).inside inner listed).2

theorem map_m_exists {ε α β : Type} {step : α → Except ε β} {items : List α}
    (each : ∀ item ∈ items, ∃ result, step item = .ok result) :
    ∃ results, items.mapM step = .ok results := by
  induction items with
  | nil => exact ⟨[], rfl⟩
  | cons item rest ih =>
      obtain ⟨⟨first, here⟩, later⟩ := List.forall_mem_cons.mp each
      obtain ⟨others, further⟩ := ih later
      exact ⟨first :: others, by rw [List.mapM_cons, here, further]; rfl⟩

namespace Shape

theorem resolve_exists {policy : EmptyPolicy} {place : String} {type : TypeSpec φ}
    (inside : ∀ inner, type = .inline inner →
      ∃ shape, build policy (some place) false inner = .ok shape) :
    ∃ choice, resolve policy place type = .ok choice := by
  cases type with
  | inline inner =>
      obtain ⟨shape, built⟩ := inside inner rfl
      exact ⟨.nested shape, by rw [resolve, built]; rfl⟩
  | _ => exact ⟨_, rfl⟩

theorem choices_of_exist {policy : EmptyPolicy} {place : String} {member : Member φ}
    (typed : member.isBare = false)
    (inside : ∀ inner, .inline inner ∈ member.types →
      ∃ shape, build policy (some place) false inner = .ok shape) :
    ∃ choices, choicesOf policy place member = .ok choices := by
  have resolved : ∃ choices, member.types.mapM (resolve policy place) = .ok choices :=
    map_m_exists fun type listed => resolve_exists fun inner same => inside inner (same ▸ listed)
  obtain ⟨choices, each⟩ := resolved
  cases member with
  | nested required validators inner => exact ⟨_, rfl⟩
  | single type => exact ⟨choices, by simpa [choicesOf, Member.types] using each⟩
  | anyOf types =>
      have listed : types ≠ [] := by simpa [Member.isBare] using typed
      exact ⟨choices, resolve_all_eq_ok_iff.mpr ⟨listed, each⟩⟩
  | record required types validators =>
      have listed : types ≠ [] := by simpa [Member.isBare] using typed
      exact ⟨choices, resolve_all_eq_ok_iff.mpr ⟨listed, each⟩⟩

/-- Members can be laid out if none is bare and the declarations they list can be built. -/
theorem lay_out_exists {policy : EmptyPolicy} (label : Option String)
    {members : List (String × Member φ)}
    (typed : ∀ entry ∈ placements none members, entry.2.isBare = false)
    (inside : ∀ inner, Declaration.Lists ⟨members⟩ inner → ∀ place,
      ∃ shape, build policy (some place) false inner = .ok shape) :
    ∃ declared, layOut policy label none members = .ok declared := by
  rw [lay_out_eq_map_m]
  apply map_m_exists
  intro entry member
  have chosen : ∃ choices, choicesOf policy (Path.join label entry.1) entry.2 = .ok choices :=
    choices_of_exist (typed entry member) fun inner listed => inside inner ⟨entry, member, listed⟩ _
  obtain ⟨choices, chosen⟩ := chosen
  exact ⟨_, by rw [propertyOf, chosen]; rfl⟩

/-- A filled declaration with properties can be built, under either policy. -/
theorem build_of_filled {declaration : Declaration φ} (filled : declaration.Filled)
    (inhabited : declaration.members ≠ []) (policy : EmptyPolicy) (label : Option String)
    (sorted : Bool) :
    ∃ shape, build policy label sorted declaration = .ok shape ∧ shape.enabled = true := by
  induction filled generalizing label sorted with
  | @of declaration typed inhabitedInside _ ih =>
      obtain ⟨members⟩ := declaration
      have laidOut := lay_out_exists label typed fun inner lists place => by
        obtain ⟨shape, built, _⟩ := ih inner lists (inhabitedInside inner lists) (some place) false
        exact ⟨shape, built⟩
      obtain ⟨declared, laidOut⟩ := laidOut
      refine ⟨ofProperties sorted declared, ?_, rfl⟩
      rw [build_of_inhabited inhabited, laidOut]
      rfl

end Shape

namespace Declaration

/-- Every declaration inside a filled one is filled and has properties. -/
theorem filled_of_lists {declaration inner : Declaration φ} (filled : declaration.Filled)
    (within : Relation.TransGen Lists declaration inner) :
    inner.Filled ∧ inner.members ≠ [] := by
  induction within with
  | single lists =>
      obtain ⟨_, inhabited, inside⟩ := filled
      exact ⟨inside _ lists, inhabited _ lists⟩
  | tail _ lists ih =>
      obtain ⟨⟨_, inhabited, inside⟩, _⟩ := ih
      exact ⟨inside _ lists, inhabited _ lists⟩

theorem types_ne_nil_of_items {items : List (Value φ)} {types : List (TypeSpec φ)}
    (filled : items ≠ []) (written : WritesItems items types) : types.isEmpty = false := by
  simpa using types_ne_nil_of_drafted filled (drafts_items_of_writes written)

mutual

theorem filled_of_writes_members {fields : List (String × Value φ)}
    {members : List (String × Member φ)} :
    WritesMembers fields members → ∀ above, ∀ entry ∈ placements above members, entry.2.IsFilled
  | .nil => fun _ _ member => absurd member List.not_mem_nil
  | .control _ later => filled_of_writes_members later
  | .data _ here later => fun above => List.forall_mem_append.mpr
      ⟨filled_of_writes_member here _, filled_of_writes_members later above⟩
termination_by structural written => written

theorem filled_of_writes_member {value : Value φ} {member : Member φ} :
    WritesMember value member → ∀ path,
      ∀ entry ∈ (path, member) :: placementsInside path member, entry.2.IsFilled
  | .single _ here => fun _ => List.forall_mem_singleton.mpr
      ⟨rfl, fun inner listed => filled_of_writes_type here inner (List.mem_singleton.mp listed)⟩
  | .anyOf filled each => fun _ => List.forall_mem_singleton.mpr
      ⟨types_ne_nil_of_items filled each, filled_of_writes_items each⟩
  | .record _ _ _ _ here => fun _ => List.forall_mem_singleton.mpr (filled_of_writes_types here)
  | .nested _ _ _ _ inside => fun path => List.forall_mem_cons.mpr
      ⟨⟨rfl, fun _ listed => absurd listed List.not_mem_nil⟩,
        filled_of_writes_members inside (some path)⟩
termination_by structural written => written

theorem filled_of_writes_types {value : Value φ} {types : List (TypeSpec φ)} :
    WritesTypes value types → ∀ {required validators},
      (Member.record required types validators).IsFilled
  | .one here =>
      ⟨rfl, fun inner listed => filled_of_writes_type here inner (List.mem_singleton.mp listed)⟩
  | .all filled each => ⟨types_ne_nil_of_items filled each, filled_of_writes_items each⟩
termination_by structural written => written

theorem filled_of_writes_items {items : List (Value φ)} {types : List (TypeSpec φ)} :
    WritesItems items types →
      ∀ inner, .inline inner ∈ types → inner.members ≠ [] ∧ inner.Filled
  | .nil => fun _ listed => absurd listed List.not_mem_nil
  | .cons here later => fun inner listed => by
      rcases List.mem_cons.mp listed with first | other
      · exact filled_of_writes_type here inner first
      · exact filled_of_writes_items later inner other
termination_by structural written => written

theorem filled_of_writes_type {value : Value φ} {type : TypeSpec φ} :
    WritesType value type → ∀ inner, .inline inner = type → inner.members ≠ [] ∧ inner.Filled
  | .named _ | .schematic _ => fun _ same => absurd same (by simp)
  | .function function => fun _ same => by
      rw [TypeSpec.ofFunction] at same
      cases made : function.class? <;> simp [made] at same
  | .inline filled uncontrolled inside => fun _ same =>
      TypeSpec.inline.inj same ▸
        ⟨members_ne_nil_of_drafted filled uncontrolled (drafts_members_of_writes inside),
          filled_of_members (filled_of_writes_members inside none)⟩
termination_by structural written => written

end

/-- What can be read is filled. -/
theorem filled_of_read {raw : Value φ} {declaration : Declaration φ}
    (read : ofValue raw = .ok declaration) : declaration.Filled := by
  cases writes_iff.mp read with
  | object inside => exact filled_of_members (filled_of_writes_members inside none)

theorem compile_of_empty (policy : EmptyPolicy) {declaration : Declaration φ}
    (empty : declaration.members = []) :
    declaration.compile policy =
      match policy with
      | .reject => .error (.emptySchema none)
      | .disable => .ok Shape.disabled := by
  obtain ⟨members⟩ := declaration
  obtain rfl : members = [] := empty
  rfl

/-- Of filled declarations, only the empty one cannot be compiled, and only under `reject`. -/
theorem compile_error_iff_of_filled {declaration : Declaration φ} (filled : declaration.Filled)
    (policy : EmptyPolicy) (fault : SchemaFault) :
    declaration.compile policy = .error fault ↔
      declaration.members = [] ∧ policy = .reject ∧ fault = .emptySchema none := by
  by_cases empty : declaration.members = []
  · rw [compile_of_empty policy empty]
    cases policy <;> simp [empty, eq_comm]
  · obtain ⟨shape, built, _⟩ := Shape.build_of_filled filled empty policy none true
    rw [compile, built]
    simp [empty]

theorem enabled_of_build_filled {policy : EmptyPolicy} {label : Option String} {sorted : Bool}
    {declaration : Declaration φ} {shape : Shape φ} (filled : declaration.Filled)
    (inhabited : declaration.members ≠ [])
    (built : Shape.build policy label sorted declaration = .ok shape) : shape.enabled = true := by
  obtain ⟨other, same, enabled⟩ := Shape.build_of_filled filled inhabited policy label sorted
  rw [Except.ok.inj (built.symm.trans same)]
  exact enabled

/-- Every shape nested in the one compiled from a filled declaration is enabled. -/
theorem enabled_of_nested {policy : EmptyPolicy} {declaration : Declaration φ}
    {shape inner : Shape φ} (filled : declaration.Filled)
    (compiled : declaration.compile policy = .ok shape)
    (nested : Relation.TransGen Shape.Nests shape inner) : inner.enabled = true := by
  obtain ⟨first, nests, reached⟩ := Relation.TransGen.head'_iff.mp nested
  obtain ⟨listed, place, lists, built⟩ := Shape.built_of_nests compiled nests
  obtain ⟨deeper, label, sorted, within, made⟩ := Shape.built_of_reached built reached
  obtain ⟨inside, inhabited⟩ := filled_of_lists filled (.head' lists within)
  exact enabled_of_build_filled inside inhabited made

/-- The place is an object about which nothing is said, and the author may be a declaration. -/
def bareRaw : Value Empty :=
  .object ⟨0, 0⟩ [("place", .object ⟨1, 1⟩ [("$required", .bool true)]),
    ("author", .array [.string "null", .object ⟨2, 2⟩ [("name", .string "string")]])]

def bareDeclaration : Declaration Empty :=
  ⟨[("place", .nested true [] ⟨[]⟩),
    ("author", .anyOf [.named .null, .inline ⟨[("name", .single (.named .string))]⟩])]⟩

/-- What can be read can be compiled, a schema without properties under `reject` aside, and no
declaration inside it becomes a disabled shape. -/
theorem read_compiles (raw : Value φ) (declaration : Declaration φ)
    (read : ofValue raw = .ok declaration) :
    (∀ policy fault, declaration.compile policy = .error fault ↔
        declaration.members = [] ∧ policy = .reject ∧ fault = .emptySchema none) ∧
      (∃ shape, declaration.compile .disable = .ok shape ∧
        (shape.enabled = false ↔ declaration.members = [])) ∧
      (∀ inner, Relation.TransGen Lists declaration inner → ∀ policy label sorted,
        ∃ shape, Shape.build policy label sorted inner = .ok shape ∧ shape.enabled = true) ∧
      ∀ policy shape inner, declaration.compile policy = .ok shape →
        Relation.TransGen Shape.Nests shape inner → inner.enabled = true := by
  have filled := filled_of_read read
  refine ⟨compile_error_iff_of_filled filled, ?_, ?_, ?_⟩
  · by_cases empty : declaration.members = []
    · exact ⟨Shape.disabled, compile_of_empty .disable empty, by simp [Shape.disabled, empty]⟩
    · obtain ⟨shape, built, enabled⟩ := Shape.build_of_filled filled empty .disable none true
      exact ⟨shape, built, by simp [enabled, empty]⟩
  · intro inner within policy label sorted
    obtain ⟨inside, inhabited⟩ := filled_of_lists filled within
    exact Shape.build_of_filled inside inhabited policy label sorted
  · intro policy shape inner compiled nested
    exact enabled_of_nested filled compiled nested

theorem bare_compiles :
    ofValue bareRaw = .ok bareDeclaration ∧
      (∃ shape, bareDeclaration.compile .disable = .ok shape ∧
        (shape.enabled = false ↔ bareDeclaration.members = [])) ∧
      ∀ fault, bareDeclaration.compile .reject ≠ .error fault := by
  have read : ofValue bareRaw = .ok bareDeclaration := by cbv
  obtain ⟨faults, disabled, _, _⟩ := read_compiles bareRaw bareDeclaration read
  refine ⟨read, disabled, fun fault failed => ?_⟩
  obtain ⟨empty, _, _⟩ := (faults .reject fault).mp failed
  exact List.cons_ne_nil _ _ empty

end Declaration

end ObjectShape
