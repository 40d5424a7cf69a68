import ObjectShape.Proofs.Declaration.Indexed
import ObjectShape.Proofs.Declaration.Meaning
import ObjectShape.Proofs.Shape.WellFormed

/-!
# Declarations of one path

Several members may stand under one path, because keys hold dots and objects are nested. What the
compiled shape has at the path is said of these members in the order of their declaration: the flags
taken together, the choices of the first with the new ones of the others behind them, and the
validators of all of them one after the other.
-/

namespace ObjectShape

set_option autoImplicit false

variable {φ : Type}

def isNamedIn (choices : List (Choice φ)) (type : BasicType) : Bool :=
  choices.any fun choice => choice.typeName? == some type

/-- Of the added choices those that are no type name, or a type name that stands neither among the
known ones nor among those added before. -/
def newChoices (known added : List (Choice φ)) : List (Choice φ) :=
  (added.zipIdx.filter fun entry =>
    entry.1.typeName?.all fun type => !isNamedIn (known ++ added.take entry.2) type).map Prod.fst

def functionsFor (type : BasicType) (validators : List (BasicType × List (Function φ))) :
    List (Function φ) :=
  (Entries.get? type validators).getD []

theorem is_named_in_append (front back : List (Choice φ)) (type : BasicType) :
    isNamedIn (front ++ back) type = (isNamedIn front type || isNamedIn back type) := by
  simp [isNamedIn]

theorem new_choices_append (known added : List (Choice φ)) (choice : Choice φ) :
    newChoices known (added ++ [choice]) =
      newChoices known added ++
        if choice.typeName?.all fun type => !isNamedIn (known ++ added) type then [choice] else [] := by
  have earlier : added.zipIdx.filter (fun entry => entry.1.typeName?.all fun type =>
        !isNamedIn (known ++ (added ++ [choice]).take entry.2) type) =
      added.zipIdx.filter fun entry => entry.1.typeName?.all fun type =>
        !isNamedIn (known ++ added.take entry.2) type := by
    apply List.filter_congr
    intro entry member
    have within : entry.2 ≤ added.length := by
      have bound := (List.mem_zipIdx member).2.1
      omega
    rw [List.take_append_of_le_length within]
  rw [newChoices, List.zipIdx_append, List.filter_append, List.map_append, earlier]
  congr 1
  cases kept : choice.typeName?.all fun type => !isNamedIn (known ++ added) type <;>
    simp [kept]

/-- A type name stands among the new choices, or the known ones, if it was added or known. -/
theorem is_named_in_new_choices (known added : List (Choice φ)) (type : BasicType) :
    isNamedIn (known ++ newChoices known added) type = isNamedIn (known ++ added) type := by
  induction added using List.reverseRecOn with
  | nil => rfl
  | append_singleton added choice ih =>
      rw [new_choices_append, ← List.append_assoc, is_named_in_append, ih, ← List.append_assoc,
        is_named_in_append (known ++ added)]
      by_cases named : choice.typeName? = some type
      · cases present : isNamedIn (known ++ added) type <;> simp [named, present]
      · have other : isNamedIn [choice] type = false := by simp [isNamedIn, named]
        split
        · rfl
        · rw [other]
          rfl

theorem add_choice_eq (known : List (Choice φ)) (choice : Choice φ) :
    Property.addChoice known choice =
      known ++ if choice.typeName?.all fun type => !isNamedIn known type then [choice] else [] := by
  rw [Property.addChoice]
  cases named : choice.typeName? with
  | none => rfl
  | some type =>
      cases present : isNamedIn known type with
      | true =>
          have found := present
          rw [isNamedIn] at found
          simp [found, present]
      | false =>
          have missing := present
          rw [isNamedIn] at missing
          simp [missing, present]

/-- Adding choices one after the other appends the new ones. -/
theorem add_choices_eq_append (known added : List (Choice φ)) :
    added.foldl Property.addChoice known = known ++ newChoices known added := by
  induction added using List.reverseRecOn with
  | nil => simp [newChoices]
  | append_singleton added choice ih =>
      have same : ∀ type, isNamedIn (known ++ newChoices known added) type =
          isNamedIn (known ++ added) type := is_named_in_new_choices known added
      rw [List.foldl_append, List.foldl_cons, List.foldl_nil, ih, add_choice_eq,
        new_choices_append, List.append_assoc]
      simp only [same]

theorem functions_for_upsert (type other : BasicType) (functions : List (Function φ))
    (validators : List (BasicType × List (Function φ))) :
    functionsFor type (Entries.upsert other (fun present => present.getD [] ++ functions) validators) =
      functionsFor type validators ++ if other = type then functions else [] := by
  rw [functionsFor, Entries.get?_upsert]
  by_cases same : other = type
  · simp [same, functionsFor]
  · simp [same, functionsFor]

theorem functions_for_eq_flat_map {validators : List (BasicType × List (Function φ))}
    (distinct : (Entries.keys validators).Nodup) (type : BasicType) :
    functionsFor type validators =
      validators.flatMap fun entry => if entry.1 = type then entry.2 else [] := by
  induction validators with
  | nil => rfl
  | cons entry rest ih =>
      obtain ⟨fresh, distinct⟩ := List.nodup_cons.mp distinct
      have later := ih distinct
      rw [List.flatMap_cons, ← later]
      by_cases same : entry.1 = type
      · have missing : Entries.get? type rest = none :=
          Entries.get?_eq_none_iff.mpr (same ▸ fresh)
        simp [functionsFor, Entries.get?, same, missing]
      · simp [functionsFor, Entries.get?, same]

theorem functions_for_add_validators (type : BasicType)
    (known : List (BasicType × List (Function φ)))
    {added : List (BasicType × List (Function φ))} (distinct : (Entries.keys added).Nodup) :
    functionsFor type (Property.addValidators known added) =
      functionsFor type known ++ functionsFor type added := by
  rw [functions_for_eq_flat_map distinct, Property.addValidators]
  clear distinct
  induction added generalizing known with
  | nil => simp
  | cons entry rest ih =>
      rw [List.foldl_cons, ih, functions_for_upsert, List.flatMap_cons, List.append_assoc]

namespace Property

theorem merged_required (first : Property φ) (later : List (Property φ)) :
    (later.foldl merge first).required = (first :: later).all Property.required := by
  induction later generalizing first with
  | nil => simp
  | cons next rest ih =>
      rw [List.foldl_cons, ih, List.all_cons, List.all_cons, List.all_cons, merge, Bool.and_assoc]

theorem merged_choices (first : Property φ) (later : List (Property φ)) :
    (later.foldl merge first).choices =
      first.choices ++ newChoices first.choices (later.flatMap Property.choices) := by
  rw [← add_choices_eq_append]
  induction later generalizing first with
  | nil => rfl
  | cons next rest ih => rw [List.foldl_cons, ih, List.flatMap_cons, List.foldl_append, merge]

theorem merged_validators (first : Property φ) {later : List (Property φ)}
    (distinct : ∀ property ∈ later, (Entries.keys property.validators).Nodup) (type : BasicType) :
    functionsFor type (later.foldl merge first).validators =
      (first :: later).flatMap fun property => functionsFor type property.validators := by
  induction later generalizing first with
  | nil => simp
  | cons next rest ih =>
      obtain ⟨here, distinct⟩ := List.forall_mem_cons.mp distinct
      rw [List.foldl_cons, ih _ distinct, List.flatMap_cons, List.flatMap_cons, List.flatMap_cons,
        merge, functions_for_add_validators type _ here, List.append_assoc]

theorem accepts_undefined_eq (property : Property φ) :
    property.acceptsUndefined = isNamedIn property.choices .undefined := rfl

theorem merged_accepts_undefined (first : Property φ) (later : List (Property φ)) :
    (later.foldl merge first).acceptsUndefined =
      (first :: later).any Property.acceptsUndefined := by
  rw [accepts_undefined_eq, merged_choices, is_named_in_new_choices, is_named_in_append,
    List.any_cons, accepts_undefined_eq]
  congr 1
  rw [isNamedIn, List.any_flatMap]
  rfl

end Property

def Member.listsUndefined (member : Member φ) : Bool :=
  member.types.any TypeSpec.isUndefined

/-- The members that stand under the path, in the order of declaration. -/
def Declaration.membersAt (path : String) (declaration : Declaration φ) : List (Member φ) :=
  ((placements none declaration.members).filter fun entry => entry.1 = path).map Prod.snd

/-- The property is what the members, declared one after the other, make of their path. `place` is
the path in faults. -/
structure Property.Merges (policy : EmptyPolicy) (path place : String) (members : List (Member φ))
    (property : Property φ) : Prop where
  path : property.path = path
  required : property.required = true ↔
    ∀ member ∈ members, member.isRequired = true ∧ member.listsUndefined = false
  /-- The choices of the first member as they are, the new ones of the others, and `undefined` if a
  member is optional and none lists it. -/
  choices : ∃ first later, members.mapM (Shape.choicesOf policy place) = .ok (first :: later) ∧
    property.choices = first ++ newChoices first later.flatten ++
      if (∃ member ∈ members, member.isRequired = false) ∧
        ∀ member ∈ members, member.listsUndefined = false then [.named .undefined] else []
  validators : ∀ type, functionsFor type property.validators =
    members.flatMap fun member => functionsFor type member.validators

theorem mem_members_at {path : String} {declaration : Declaration φ} {member : Member φ} :
    member ∈ declaration.membersAt path ↔
      (path, member) ∈ placements none declaration.members := by
  simp [Declaration.membersAt]

theorem members_at_ne_nil_iff {path : String} {declaration : Declaration φ} :
    declaration.membersAt path ≠ [] ↔
      ∃ member, (path, member) ∈ placements none declaration.members := by
  simp [List.eq_nil_iff_forall_not_mem, mem_members_at]

theorem map_eq_of_forall₂ {α β γ : Type} {related : α → β → Prop} {left : α → γ} {right : β → γ}
    (same : ∀ item result, related item result → left item = right result) {items : List α}
    {results : List β} (each : List.Forall₂ related items results) :
    items.map left = results.map right := by
  rw [← List.forall₂_eq_eq_eq, List.forall₂_map_left_iff, List.forall₂_map_right_iff]
  exact each.imp same

namespace Shape

theorem fields_of_property_of {policy : EmptyPolicy} {label : Option String} {path : String}
    {member : Member φ} {property : Property φ}
    (made : propertyOf policy label (path, member) = .ok property) :
    property.path = path ∧ property.required = member.isRequired ∧
      choicesOf policy (Path.join label path) member = .ok property.choices ∧
      property.validators = member.validators := by
  obtain ⟨choices, chosen, same⟩ := bind_eq_ok_iff.mp made
  rw [← pure_eq_ok_iff.mp same]
  exact ⟨rfl, rfl, chosen, rfl⟩

theorem names_undefined_of_resolved {policy : EmptyPolicy} {place : String}
    {types : List (TypeSpec φ)} {choices : List (Choice φ)}
    (each : List.Forall₂ (fun type choice => resolve policy place type = .ok choice) types choices) :
    isNamedIn choices .undefined = types.any TypeSpec.isUndefined := by
  have same : ∀ (type : TypeSpec φ) (choice : Choice φ), resolve policy place type = .ok choice →
      type.isUndefined = (choice.typeName? == some .undefined) := by
    intro type choice resolved
    rw [TypeSpec.isUndefined, resolve_type_name resolved]
  have names := map_eq_of_forall₂ same each
  have all := congrArg (fun flags => List.any flags id) names
  simpa [isNamedIn, List.any_map, Function.comp_def] using all.symm

theorem names_undefined_of_choices {policy : EmptyPolicy} {place : String} {member : Member φ}
    {choices : List (Choice φ)} (chosen : choicesOf policy place member = .ok choices) :
    isNamedIn choices .undefined = member.listsUndefined := by
  by_cases flat : ∀ required validators inner, member ≠ .nested required validators inner
  · exact names_undefined_of_resolved ((choices_of_eq_ok_iff flat).mp chosen).2
  · push Not at flat
    obtain ⟨required, validators, inner, rfl⟩ := flat
    rw [← Except.ok.inj chosen]
    rfl

/-- The members of a path lay out the properties of the path, one for one. -/
theorem declared_at_of_laid_out {policy : EmptyPolicy} {label : Option String}
    {members : List (String × Member φ)} {declared : List (Property φ)}
    (laidOut : layOut policy label none members = .ok declared) (path : String) :
    List.Forall₂ (fun member property => propertyOf policy label (path, member) = .ok property)
      (Declaration.membersAt path ⟨members⟩) (declaredAt path declared) := by
  rw [lay_out_eq_map_m, map_m_eq_ok_iff] at laidOut
  rw [Declaration.membersAt, declaredAt, List.forall₂_map_left_iff]
  generalize placements none members = placed at laidOut
  induction laidOut with
  | nil => exact .nil
  | @cons entry property entries properties here _ ih =>
      have placed : property.path = entry.1 := (fields_of_property_of here).1
      by_cases same : entry.1 = path
      · rw [List.filter_cons_of_pos (by simpa using same),
          List.filter_cons_of_pos (by simpa [placed] using same)]
        exact .cons (same ▸ here) ih
      · rw [List.filter_cons_of_neg (by simpa using same),
          List.filter_cons_of_neg (by simpa [placed] using same)]
        exact ih

/-- What the members of a path make of it once they are laid out, merged and settled. -/
theorem merges_of_declared {policy : EmptyPolicy} {label : Option String} {path : String}
    {members : List (Member φ)} {first : Property φ} {later : List (Property φ)}
    (each : List.Forall₂ (fun member property => propertyOf policy label (path, member) = .ok property)
      members (first :: later))
    (distinct : ∀ member ∈ members, (Entries.keys member.validators).Nodup) :
    (later.foldl Property.merge first).settle.Merges policy path (Path.join label path) members := by
  have paths : first.path = path := by
    obtain ⟨_, _, here, _⟩ := List.forall₂_cons_right_iff.mp each
    exact (fields_of_property_of here).1
  have flags : members.map Member.isRequired = (first :: later).map Property.required := by
    refine map_eq_of_forall₂ (fun _ _ here => ?_) each
    exact (fields_of_property_of here).2.1.symm
  have chosen : members.mapM (choicesOf policy (Path.join label path)) =
      .ok ((first :: later).map Property.choices) := by
    rw [map_m_eq_ok_iff, List.forall₂_map_right_iff]
    exact each.imp fun _ _ here => (fields_of_property_of here).2.2.1
  have undefined : members.map Member.listsUndefined =
      (first :: later).map Property.acceptsUndefined := by
    refine map_eq_of_forall₂ (fun _ _ here => ?_) each
    exact (names_undefined_of_choices (fields_of_property_of here).2.2.1).symm
  have registered : members.map Member.validators = (first :: later).map Property.validators :=
    map_eq_of_forall₂ (fun _ _ here => (fields_of_property_of here).2.2.2.symm) each
  have allRequired : (first :: later).all Property.required = members.all Member.isRequired := by
    have same := congrArg (fun all => List.all all id) flags
    simpa only [List.all_map, Function.id_comp] using same.symm
  have someUndefined : (first :: later).any Property.acceptsUndefined =
      members.any Member.listsUndefined := by
    have same := congrArg (fun all => List.any all id) undefined
    simpa only [List.any_map, Function.id_comp] using same.symm
  have laterDistinct : ∀ property ∈ later, (Entries.keys property.validators).Nodup := by
    intro property member
    have listed : property.validators ∈ members.map Member.validators :=
      registered ▸ List.mem_map_of_mem (List.mem_cons_of_mem first member)
    obtain ⟨declaring, among, same⟩ := List.mem_map.mp listed
    exact same ▸ distinct declaring among
  constructor
  · exact (Property.path_of_merged first later).trans paths
  · rw [Property.settle_required, Property.merged_required, Property.merged_accepts_undefined,
      allRequired, someUndefined, Bool.and_eq_true, Bool.not_eq_true', List.all_eq_true,
      List.any_eq_false]
    simp only [Bool.not_eq_true, forall_and]
  · refine ⟨first.choices, later.map Property.choices, chosen, ?_⟩
    rw [Property.settle_choices, Property.merged_required, Property.merged_accepts_undefined,
      Property.merged_choices, allRequired, someUndefined, ← List.flatMap_def]
    simp only [Bool.and_eq_true, Bool.not_eq_true', List.all_eq_false, List.any_eq_false,
      Bool.not_eq_true]
    split <;> simp
  · intro type
    have functions := congrArg (fun all => List.flatMap (functionsFor type) all) registered
    rw [List.flatMap_map, List.flatMap_map] at functions
    rw [functions]
    exact Property.merged_validators first laterDistinct type

/-- What a built shape has at a path: nothing if no member stands under it, or else what the members
there merge to. -/
theorem built_at_path {policy : EmptyPolicy} {label : Option String} {sorted : Bool}
    {declaration : Declaration φ} {shape : Shape φ}
    (built : build policy label sorted declaration = .ok shape)
    (groups : ∀ entry ∈ placements none declaration.members,
      (Entries.keys entry.2.validators).Nodup) (path : String) :
    declaration.membersAt path = [] ∧ shape.property? path = none ∧ path ∉ shape.keys ∨
      declaration.membersAt path ≠ [] ∧ path ∈ shape.keys ∧
        ∃ property, shape.property? path = some property ∧
          property.Merges policy path (Path.join label path) (declaration.membersAt path) := by
  obtain ⟨members⟩ := declaration
  rcases build_cases built with ⟨rfl, _, rfl⟩ | ⟨_, declared, laidOut, rfl⟩
  · exact .inl ⟨rfl, rfl, List.not_mem_nil⟩
  · have each := declared_at_of_laid_out laidOut path
    have listed : path ∈ (ofProperties sorted declared).keys ↔ declaredAt path declared ≠ [] := by
      simp [mem_keys_of_properties_iff, List.eq_nil_iff_forall_not_mem, mem_declared_at]
    rw [listed, property_at, mergedAt]
    cases found : declaredAt path declared with
    | nil =>
        rw [found, List.forall₂_nil_right_iff] at each
        exact .inl ⟨each, rfl, by simp⟩
    | cons first later =>
        rw [found] at each
        have filled : Declaration.membersAt path ⟨members⟩ ≠ [] := by
          intro empty
          rw [empty, List.forall₂_nil_left_iff] at each
          exact List.cons_ne_nil _ _ each
        refine .inr ⟨filled, List.cons_ne_nil _ _, _, rfl, merges_of_declared each ?_⟩
        intro member among
        exact groups (path, member) (mem_members_at.mp among)

/-- The path `x.y.z` is declared three times, in three spellings. -/
def threefold : Declaration Empty :=
  ⟨[("x.y.z", .record true [.named .string, .named .string]
      [(.string, [⟨0, .guard (.root 0 "A")⟩])]),
    ("x", .nested true [] ⟨[("y.z", .record false [.named .bigint, .named .string]
      [(.string, [⟨1, .guard (.root 1 "B")⟩]), (.bigint, [⟨0, .guard (.root 0 "A")⟩])])]⟩),
    ("x.y", .nested true [] ⟨[("z", .anyOf [.named .null, .named .bigint])]⟩)]⟩

def threefoldProperty : Property Empty :=
  { path := "x.y.z"
    required := false
    choices := [.named .string, .named .string, .named .bigint, .named .null, .named .undefined]
    validators :=
      [(.string, [⟨0, .guard (.root 0 "A")⟩, ⟨1, .guard (.root 1 "B")⟩]),
        (.bigint, [⟨0, .guard (.root 0 "A")⟩])] }

def threefoldShape : Shape Empty :=
  { properties :=
      [("x.y.z", threefoldProperty), ("x", ⟨"x", true, [.named .object], []⟩),
        ("x.y", ⟨"x.y", true, [.named .object], []⟩)]
    keys := ["x", "x.y", "x.y.z"]
    enabled := true
    depth := 3 }

/-- A compiled declaration has a path if one of its members, or of the objects nested in it, stands
under the path, and has there what all of these merge to. -/
theorem compiled_merges (policy : EmptyPolicy) (schema : Declaration.Indexed φ) (shape : Shape φ)
    (path : String) (compiled : schema.declaration.compile policy = .ok shape) :
    ((shape.property? path).isSome = true ↔
        ∃ member, (path, member) ∈ placements none schema.declaration.members) ∧
      (path ∈ shape.keys ↔ ∃ member, (path, member) ∈ placements none schema.declaration.members) ∧
      ∀ property, shape.property? path = some property →
        property.Merges policy path path (schema.declaration.membersAt path) := by
  rw [← members_at_ne_nil_iff]
  rcases built_at_path compiled schema.groups_of_placed path with
    ⟨empty, absent, unlisted⟩ | ⟨filled, listed, found⟩
  · simp [empty, absent, unlisted]
  · obtain ⟨property, found, merges⟩ := found
    refine ⟨by simp [filled, found], by simp [filled, listed], fun other same => ?_⟩
    rw [← Option.some.inj (found.symm.trans same)]
    exact merges

theorem threefold_merges :
    threefold.compile .reject = .ok threefoldShape ∧
      threefoldShape.property? "x.y.z" = some threefoldProperty ∧
      threefoldProperty.Merges .reject "x.y.z" "x.y.z" (threefold.membersAt "x.y.z") := by
  have compiled : threefold.compile .reject = .ok threefoldShape := by cbv
  have found : threefoldShape.property? "x.y.z" = some threefoldProperty := by cbv
  let schema : Declaration.Indexed Empty := ⟨threefold, by decide⟩
  exact ⟨compiled, found,
    (compiled_merges .reject schema threefoldShape "x.y.z" compiled).2.2 _ found⟩

end Shape

end ObjectShape
