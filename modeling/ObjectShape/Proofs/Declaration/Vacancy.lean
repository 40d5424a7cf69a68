import ObjectShape.Memo
import ObjectShape.Proofs.Declaration.Drafts
import ObjectShape.Proofs.Declaration.Filled
import ObjectShape.Proofs.Declaration.Repeated

/-!
# Types that declare nothing

What becomes of a type that is a declaration without members depends on where it is met. The reader
of the object notation takes it for a fault, whichever policy is in force. A declaration that was
never written as an object is not read, so the policy decides: under `disable` each such type becomes
the disabled shape, in its place among the choices.
-/

namespace ObjectShape

set_option autoImplicit false

variable {φ : Type}

def Declaration.inlineAt (path : String) (declaration : Declaration φ) : List (Declaration φ) :=
  (declaration.membersAt path).flatMap fun member => member.types.filterMap TypeSpec.inline?

def Property.nested (property : Property φ) : List (Shape φ) :=
  property.choices.filterMap Choice.nested?

def Shape.nestedAt (path : String) (shape : Shape φ) : List (Shape φ) :=
  (shape.property? path).elim [] Property.nested

/-- The shape is disabled if the declaration is empty, or else has at every path one nested shape for
each declaration that is a type there, in the same order, and yielded by it in turn. -/
inductive Declaration.Yields : Declaration φ → Shape φ → Prop where
  | vacant : Yields ⟨[]⟩ Shape.disabled
  | inhabited {declaration : Declaration φ} {shape : Shape φ} (filled : declaration.members ≠ [])
      (enabled : shape.enabled = true)
      (each : ∀ path, List.Forall₂ Yields (declaration.inlineAt path) (shape.nestedAt path)) :
      Yields declaration shape

theorem nested_of_new_choices (known added : List (Choice φ)) :
    (newChoices known added).filterMap Choice.nested? = added.filterMap Choice.nested? := by
  induction added using List.reverseRecOn with
  | nil => simp [newChoices]
  | append_singleton added choice ih =>
      rw [new_choices_append, List.filterMap_append, List.filterMap_append, ih]
      congr 1
      cases choice with
      | named type => split <;> rfl
      | _ => rfl

namespace Property

theorem nested_of_settle (property : Property φ) : property.settle.nested = property.nested := by
  rw [settle, nested, nested]
  dsimp only
  split
  · rw [List.filterMap_append]
    exact List.append_nil _
  · rfl

theorem nested_of_merged (first : Property φ) (later : List (Property φ)) :
    (later.foldl merge first).nested = (first :: later).flatMap nested := by
  rw [nested, merged_choices, List.filterMap_append, nested_of_new_choices, List.filterMap_flatMap,
    List.flatMap_cons]
  rfl

end Property

namespace Shape

theorem nested_at_of_properties (sorted : Bool) (declared : List (Property φ)) (path : String) :
    (ofProperties sorted declared).nestedAt path =
      (declaredAt path declared).flatMap Property.nested := by
  rw [nestedAt, property_at, mergedAt]
  cases declaredAt path declared with
  | nil => rfl
  | cons first later =>
      exact (Property.nested_of_settle _).trans (Property.nested_of_merged first later)

theorem nested_at_of_built {policy : EmptyPolicy} {label : Option String} {sorted : Bool}
    {declaration : Declaration φ} {shape : Shape φ}
    (built : build policy label sorted declaration = .ok shape) (path : String) :
    List.Forall₂
      (fun listed inner => build policy (some (Path.join label path)) false listed = .ok inner)
      (declaration.inlineAt path) (shape.nestedAt path) := by
  obtain ⟨members⟩ := declaration
  rcases build_cases built with ⟨rfl, _, rfl⟩ | ⟨_, declared, laidOut, rfl⟩
  · exact .nil
  · rw [nested_at_of_properties]
    refine List.rel_flatMap (declared_at_of_laid_out laidOut path) ?_
    intro member property here
    exact nested_of_chosen (fields_of_property_of here).2.2.1

end Shape

namespace Declaration

theorem lists_of_inline_at {path : String} {declaration inner : Declaration φ}
    (member : inner ∈ declaration.inlineAt path) : declaration.Lists inner := by
  obtain ⟨owner, among, listed⟩ := List.mem_flatMap.mp member
  exact ⟨(path, owner), mem_members_at.mp among, mem_inline_iff.mp listed⟩

/-- Every list of types holds at least one, at any depth. -/
inductive Typed : Declaration φ → Prop where
  | of {declaration : Declaration φ}
      (here : ∀ entry ∈ placements none declaration.members, entry.2.isBare = false)
      (inside : ∀ inner, declaration.Lists inner → Typed inner) : Typed declaration

/-- Under `disable` a declaration can be built unless a list of types is empty. -/
theorem build_of_typed {declaration : Declaration φ} (typed : declaration.Typed)
    (label : Option String) (sorted : Bool) :
    ∃ shape, Shape.build .disable label sorted declaration = .ok shape ∧
      declaration.Yields shape := by
  induction typed generalizing label sorted with
  | @of declaration here _ ih =>
      obtain ⟨members⟩ := declaration
      by_cases filled : members = []
      · obtain rfl := filled
        exact ⟨Shape.disabled, rfl, .vacant⟩
      · have laidOut := Shape.lay_out_exists label here fun inner lists place => by
          obtain ⟨shape, built, _⟩ := ih inner lists (some place) false
          exact ⟨shape, built⟩
        obtain ⟨declared, laidOut⟩ := laidOut
        have built : Shape.build .disable label sorted ⟨members⟩ =
            .ok (Shape.ofProperties sorted declared) := by
          rw [Shape.build_of_inhabited filled, laidOut]
          rfl
        refine ⟨_, built, .inhabited filled rfl fun path => ?_⟩
        have listed : ∀ inner ∈ inlineAt path ⟨members⟩, Lists ⟨members⟩ inner :=
          fun _ => lists_of_inline_at
        have each := (List.forall₂_and_left _ _).mpr ⟨listed, Shape.nested_at_of_built built path⟩
        refine each.imp fun inner shape nested => ?_
        obtain ⟨lists, made⟩ := nested
        -- The shape that is nested there is the one that the hypothesis speaks of.
        obtain ⟨other, same, yields⟩ := ih inner lists _ false
        rw [Except.ok.inj (made.symm.trans same)]
        exact yields

end Declaration

structure Member.IsTyped (member : Member φ) : Prop where
  here : member.isBare = false
  inside : ∀ inner, .inline inner ∈ member.types → inner.Typed

namespace Declaration

theorem inline_ne_of_flat {value : Value φ} {type : TypeSpec φ} (flat : value.object? = none)
    (written : WritesType value type) (inner : Declaration φ) : .inline inner ≠ type := by
  cases written with
  | function function =>
      rw [TypeSpec.ofFunction]
      cases function.class? <;> simp
  | inline filled => exact absurd flat (by simp [Value.object?])
  | _ => simp

theorem typed_of_members {members : List (String × Member φ)}
    (typed : ∀ entry ∈ placements none members, entry.2.IsTyped) : Typed ⟨members⟩ := by
  refine .of (fun entry member => (typed entry member).here) fun inner lists => ?_
  obtain ⟨entry, member, listed⟩ := lists
  exact (typed entry member).inside inner listed

mutual

theorem typed_of_drafted_members {fields : List (String × Value φ)}
    {members : List (String × Member φ)} :
    DraftsMembers fields members → ∀ above, ∀ entry ∈ placements above members, entry.2.IsTyped
  | .nil => fun _ _ member => absurd member List.not_mem_nil
  | .control _ later => typed_of_drafted_members later
  | .data _ here later => fun above => List.forall_mem_append.mpr
      ⟨typed_of_drafted_member here _, typed_of_drafted_members later above⟩
termination_by structural drafted => drafted

theorem typed_of_drafted_member {value : Value φ} {member : Member φ} :
    DraftsMember value member → ∀ path,
      ∀ entry ∈ (path, member) :: placementsInside path member, entry.2.IsTyped
  | .single flat here => fun _ => List.forall_mem_singleton.mpr
      ⟨rfl, fun inner listed =>
        absurd (List.mem_singleton.mp listed) (inline_ne_of_flat flat here inner)⟩
  | .anyOf filled each => fun _ => List.forall_mem_singleton.mpr
      ⟨by simpa [Member.isBare] using types_ne_nil_of_drafted filled each,
        typed_of_drafted_items each⟩
  | .record _ _ _ _ here => fun _ => List.forall_mem_singleton.mpr (typed_of_drafted_types here)
  | .nested _ _ _ _ inside => fun path => List.forall_mem_cons.mpr
      ⟨⟨rfl, fun _ listed => absurd listed List.not_mem_nil⟩,
        typed_of_drafted_members inside (some path)⟩
termination_by structural drafted => drafted

theorem typed_of_drafted_types {value : Value φ} {types : List (TypeSpec φ)} :
    DraftsTypes value types → ∀ {required validators},
      (Member.record required types validators).IsTyped
  | .one here =>
      ⟨rfl, fun inner listed => typed_of_drafted_type here inner (List.mem_singleton.mp listed)⟩
  | .all filled each =>
      ⟨by simpa [Member.isBare] using types_ne_nil_of_drafted filled each,
        typed_of_drafted_items each⟩
termination_by structural drafted => drafted

theorem typed_of_drafted_items {items : List (Value φ)} {types : List (TypeSpec φ)} :
    DraftsItems items types → ∀ inner, .inline inner ∈ types → inner.Typed
  | .nil => fun _ listed => absurd listed List.not_mem_nil
  | .cons here later => fun inner listed => by
      rcases List.mem_cons.mp listed with first | other
      · exact typed_of_drafted_type here inner first
      · exact typed_of_drafted_items later inner other
termination_by structural drafted => drafted

theorem typed_of_drafted_type {value : Value φ} {type : TypeSpec φ} :
    DraftsType value type → ∀ inner, .inline inner = type → inner.Typed
  | .flat flat here => fun inner same => absurd same (inline_ne_of_flat flat here inner)
  | .vacant _ => fun _ same => TypeSpec.inline.inj same ▸ typed_of_members (by simp [placements])
  | .inline _ _ inside => fun _ same =>
      TypeSpec.inline.inj same ▸ typed_of_members (typed_of_drafted_members inside none)
termination_by structural drafted => drafted

end

/-- The declaration, or one that it lists at some depth, is empty. -/
def HoldsVacant (declaration : Declaration φ) : Prop :=
  ∃ inner, Relation.ReflTransGen Lists declaration inner ∧ inner.members = []

theorem holds_vacant_of_lists {declaration inner : Declaration φ} (lists : declaration.Lists inner)
    (vacant : inner.HoldsVacant) : declaration.HoldsVacant := by
  obtain ⟨deeper, within, empty⟩ := vacant
  exact ⟨deeper, .head lists within, empty⟩

mutual

/-- A vacancy is reported under a path, but which members list it does not depend on the path. -/
theorem vacant_among_members : (members : List (String × Member φ)) → ∀ above other,
    vacancies above members ≠ [] →
      ∃ entry ∈ placements other members, ∃ inner, .inline inner ∈ entry.2.types ∧ inner.HoldsVacant
  | [] => fun _ _ vacant => absurd rfl vacant
  | (_, member) :: rest => fun above other vacant => by
      rw [vacancies, ne_eq, List.append_eq_nil_iff, Decidable.not_and_iff_or_not] at vacant
      rcases vacant with here | later
      · obtain ⟨entry, among, found⟩ := vacant_in_member member _ (Path.join other _) here
        exact ⟨entry, List.mem_append_left _ among, found⟩
      · obtain ⟨entry, among, found⟩ := vacant_among_members rest above other later
        exact ⟨entry, List.mem_cons_of_mem _ (List.mem_append_right _ among), found⟩
termination_by structural members => members

theorem vacant_in_member : (member : Member φ) → ∀ path other, vacanciesOf path member ≠ [] →
    ∃ entry ∈ (other, member) :: placementsInside other member,
      ∃ inner, .inline inner ∈ entry.2.types ∧ inner.HoldsVacant
  | .single type => fun path other vacant => by
      obtain ⟨inner, same, found⟩ := vacant_in_type type path vacant
      exact ⟨_, List.mem_cons_self, inner, List.mem_singleton.mpr same.symm, found⟩
  | .anyOf types => fun path other vacant =>
      ⟨_, List.mem_cons_self, vacant_among_types types path vacant⟩
  | .record _ types _ => fun path other vacant =>
      ⟨_, List.mem_cons_self, vacant_among_types types path vacant⟩
  | .nested _ _ ⟨members⟩ => fun path other vacant => by
      obtain ⟨entry, among, found⟩ := vacant_among_members members _ (some other) vacant
      exact ⟨entry, List.mem_cons_of_mem _ among, found⟩
termination_by structural member => member

theorem vacant_among_types : (types : List (TypeSpec φ)) → ∀ path, vacanciesOfTypes path types ≠ [] →
    ∃ inner, .inline inner ∈ types ∧ inner.HoldsVacant
  | [] => fun _ vacant => absurd rfl vacant
  | type :: rest => fun path vacant => by
      rw [vacanciesOfTypes, ne_eq, List.append_eq_nil_iff, Decidable.not_and_iff_or_not] at vacant
      rcases vacant with here | later
      · obtain ⟨inner, same, found⟩ := vacant_in_type type path here
        exact ⟨inner, same ▸ List.mem_cons_self, found⟩
      · obtain ⟨inner, among, found⟩ := vacant_among_types rest path later
        exact ⟨inner, List.mem_cons_of_mem _ among, found⟩
termination_by structural types => types

theorem vacant_in_type : (type : TypeSpec φ) → ∀ path, vacanciesOfType path type ≠ [] →
    ∃ inner, type = .inline inner ∧ inner.HoldsVacant
  | .inline ⟨[]⟩ => fun _ _ => ⟨_, rfl, _, .refl, rfl⟩
  | .inline ⟨first :: rest⟩ => fun path vacant => by
      obtain ⟨entry, among, inner, listed, found⟩ :=
        vacant_among_members (first :: rest) (some path) none vacant
      exact ⟨_, rfl, holds_vacant_of_lists ⟨entry, among, listed⟩ found⟩
  | .named _ | .instanceOf _ | .predicate _ | .schematic _ => fun _ vacant => absurd rfl vacant
termination_by structural type => type

end

/-- A draft has no vacancies if the declarations that it lists, at any depth, have members. -/
theorem vacancies_eq_nil_iff {raw : Value φ} {declaration : Declaration φ}
    (drafted : Drafts raw declaration) :
    vacancies none declaration.members = [] ↔
      ∀ inner, Relation.TransGen Lists declaration inner → inner.members ≠ [] := by
  constructor
  · intro none inner within
    have read := writes_iff.mpr (writes_iff_drafts.mpr ⟨drafted, none⟩)
    exact (filled_of_lists (filled_of_read read) within).2
  · intro inhabited
    by_contra vacant
    obtain ⟨entry, among, inner, listed, deeper, within, empty⟩ :=
      vacant_among_members declaration.members none none vacant
    have lists : declaration.Lists inner := ⟨entry, among, listed⟩
    exact inhabited deeper (.head' lists within) empty

def draftedRaw : Value Empty :=
  .object ⟨0, 0⟩ [("a", .object ⟨1, 1⟩ [("$type", .array [.string "null", .object ⟨2, 2⟩ []])]),
    ("b", .array [.object ⟨3, 3⟩ [("c", .object ⟨4, 4⟩ [("$type", .object ⟨5, 5⟩ [])])]])]

def draftedDeclaration : Declaration Empty :=
  ⟨[("a", .record true [.named .null, .inline ⟨[]⟩] []),
    ("b", .anyOf [.inline ⟨[("c", .record true [.inline ⟨[]⟩] [])]⟩])]⟩

/-- A property's own object with `$type` alone drafts a required record without validators. -/
theorem drafts_member_of_type {ref : ObjectRef} {value : Value φ} {types : List (TypeSpec φ)}
    (here : DraftsTypes value types) :
    DraftsMember (.object ref [("$type", value)]) (.record true types []) := by
  have registered : WritesValidators
      (Entries.get? Control.validators.key [("$type", value)]) [] := .absent
  have bare : ∀ key ∈ Entries.keys [("$type", value)], Control.owns key = true :=
    List.forall_mem_singleton.mpr (Control.owns_key .type)
  exact .record (.absent rfl) registered rfl bare here

theorem drafted_raw_drafts : Drafts draftedRaw draftedDeclaration := by
  have vacant : ∀ ref, DraftsType (.object ref []) (.inline (⟨[]⟩ : Declaration Empty)) := .vacant
  have first : DraftsMember (.object ⟨1, 1⟩ [("$type", .array [.string "null", .object ⟨2, 2⟩ []])])
      (.record true [.named .null, .inline (⟨[]⟩ : Declaration Empty)] []) :=
    drafts_member_of_type
      (.all (by simp) (.cons (.flat rfl (.named (by decide))) (.cons (vacant _) .nil)))
  have second : DraftsMember (.object ⟨4, 4⟩ [("$type", .object ⟨5, 5⟩ [])])
      (.record true [.inline (⟨[]⟩ : Declaration Empty)] []) :=
    drafts_member_of_type (.one (vacant _))
  have inside : DraftsType (.object ⟨3, 3⟩ [("c", .object ⟨4, 4⟩ [("$type", .object ⟨5, 5⟩ [])])])
      (.inline (⟨[("c", .record true [.inline ⟨[]⟩] [])]⟩ : Declaration Empty)) :=
    .inline (by simp) (by intro control; cases control <;> rfl) (.data (by decide) second .nil)
  exact .object (.data (by decide) first
    (.data (by decide) (.anyOf (by simp) (.cons inside .nil)) .nil))

/-- The reader does not ask the policy: a draft compiles to what its declaration compiles to, or fails
at its first vacancy, and it has vacancies if a declaration that it lists is empty. The declaration
itself compiles under `disable`, each of these to the disabled shape in its place. -/
theorem drafted_compiles (raw : Value φ) (declaration : Declaration φ)
    (drafted : Drafts raw declaration) :
    (∀ policy, compileObject policy raw =
        match vacancies none declaration.members with
        | [] => declaration.compile policy
        | place :: _ => .error (.emptySchema (some place))) ∧
      (vacancies none declaration.members = [] ↔
        ∀ inner, Relation.TransGen Lists declaration inner → inner.members ≠ []) ∧
      ∃ shape, declaration.compile .disable = .ok shape ∧ declaration.Yields shape := by
  refine ⟨fun policy => ?_, vacancies_eq_nil_iff drafted, ?_⟩
  · rw [compileObject, of_value_of_drafts drafted]
    cases vacancies none declaration.members <;> rfl
  · cases drafted with
    | object inside =>
        exact build_of_typed (typed_of_members (typed_of_drafted_members inside none)) none true

theorem drafted_raw_compiles :
    Drafts draftedRaw draftedDeclaration ∧
      compileObject .disable draftedRaw = .error (.emptySchema (some "a")) ∧
      compileObject .reject draftedRaw = .error (.emptySchema (some "a")) ∧
      ∃ shape, draftedDeclaration.compile .disable = .ok shape ∧
        draftedDeclaration.Yields shape := by
  have places : vacancies none draftedDeclaration.members = ["a", "b.c"] := by cbv
  obtain ⟨read, _, yields⟩ := drafted_compiles draftedRaw draftedDeclaration drafted_raw_drafts
  rw [places] at read
  exact ⟨drafted_raw_drafts, read .disable, read .reject, yields⟩

def vacantRaw : Value Empty :=
  .object ⟨0, 0⟩ [("a", .object ⟨1, 1⟩ [("$type", .object ⟨2, 2⟩ [])])]

def vacantDeclaration : Declaration Empty :=
  ⟨[("a", .record true [.inline ⟨[]⟩] [])]⟩

def vacantShape : Shape Empty :=
  { properties := [("a", ⟨"a", true, [.nested Shape.disabled], []⟩)]
    keys := ["a"]
    enabled := true
    depth := 1 }

/-- Under `disable` the declaration compiles, and the object that drafts it does not. -/
theorem vacant_raw_is_refused :
    Drafts vacantRaw vacantDeclaration ∧
      vacantDeclaration.compile .disable = .ok vacantShape ∧
      compileObject .disable vacantRaw = .error (.emptySchema (some "a")) := by
  refine ⟨?_, by cbv, by cbv⟩
  exact .object (.data (by decide) (drafts_member_of_type (.one (.vacant _))) .nil)

end Declaration

end ObjectShape
