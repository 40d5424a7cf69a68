import ObjectShape.Proofs.Declaration.Reading
import ObjectShape.Proofs.Shape.Layout
import ObjectShape.Proofs.Shape.Settling
import ObjectShape.Proofs.Shape.Unmerged

/-!
# Compiling keeps the meaning

A compiled declaration accepts what the direct reading of the declaration admits, provided that the
keys of the declaration and of the value are plain. The induction runs over the declaration: a level
of members is laid out below a path that leads to the part those members are about, and the verdict
on the laid out properties is the reading of the members on that part.
-/

namespace ObjectShape

set_option autoImplicit false

variable {φ : Type} [Host φ]

def TypeAgrees (type : TypeSpec φ) : Prop :=
  ∀ policy place choice value, Shape.resolve policy place type = .ok choice →
    (∀ inner ∈ type.inline?, inner.EveryLevel Path.PlainKeys) →
    value.EveryLevel Path.PlainKeys → choice.accepts value = type.admits value

/-- The verdict on a laid out level is the reading of its members on the part the level is about. -/
def MembersAgree (members : List (String × Member φ)) : Prop :=
  ∀ policy label above declared root value depth,
    Shape.layOut policy label above members = .ok declared → PlainMembers members →
    root.EveryLevel Path.PlainKeys → Value.Reaches root above value →
    (∀ property ∈ declared, Path.depth property.path ≤ depth) →
    ((∀ property ∈ declared, Shape.SettledBy declared (root.outline depth) property) ↔
      membersAdmit members value = true)

def MemberAgrees (key : String) (member : Member φ) : Prop :=
  ∀ policy label above own root value depth,
    Shape.layOutMember policy label (Path.join above key) member = .ok own → Path.IsPlain key →
    (∀ inner ∈ member.inner, inner.EveryLevel Path.PlainKeys) →
    root.EveryLevel Path.PlainKeys → Value.Reaches root above value →
    (∀ property ∈ own, Path.depth property.path ≤ depth) →
    ((∀ property ∈ own, Shape.SettledBy own (root.outline depth) property) ↔
      member.admits (value.childAt key) = true)

def BuildAgrees (declaration : Declaration φ) : Prop :=
  ∀ policy label sorted shape value, Shape.build policy label sorted declaration = .ok shape →
    declaration.EveryLevel Path.PlainKeys → value.EveryLevel Path.PlainKeys →
    shape.accepts value = declaration.admits value

omit [Host φ] in
theorem resolve_type_name {policy : EmptyPolicy} {place : String} {type : TypeSpec φ}
    {choice : Choice φ} (resolved : Shape.resolve policy place type = .ok choice) :
    choice.typeName? = type.typeName? := by
  cases type with
  | inline declaration =>
      rw [Shape.resolve, bind_eq_ok_iff] at resolved
      obtain ⟨shape, _, made⟩ := resolved
      rw [← pure_eq_ok_iff.mp made]
      rfl
  | _ =>
      rw [Shape.resolve] at resolved
      rw [← Except.ok.inj resolved]
      rfl

omit [Host φ] in
theorem resolve_later_cons {policy : EmptyPolicy} {place : String} {type : TypeSpec φ}
    {rest : List (TypeSpec φ)} {choices : List (Choice φ)}
    (resolved : Shape.resolveLater policy place (type :: rest) = .ok choices) :
    ∃ choice later, Shape.resolve policy place type = .ok choice ∧
      Shape.resolveLater policy place rest = .ok later ∧ choices = choice :: later := by
  rw [Shape.resolveLater, bind_eq_ok_iff] at resolved
  obtain ⟨choice, first, resolved⟩ := resolved
  rw [bind_eq_ok_iff] at resolved
  obtain ⟨later, second, joined⟩ := resolved
  exact ⟨choice, later, first, second, (pure_eq_ok_iff.mp joined).symm⟩

omit [Host φ] in
theorem resolve_later_undefined {policy : EmptyPolicy} {place : String}
    {types : List (TypeSpec φ)} {choices : List (Choice φ)}
    (resolved : Shape.resolveLater policy place types = .ok choices) :
    (choices.any fun choice => choice.typeName? == some .undefined) =
      types.any TypeSpec.isUndefined := by
  induction types generalizing choices with
  | nil =>
      rw [Shape.resolveLater] at resolved
      rw [← Except.ok.inj resolved]
      rfl
  | cons type rest ih =>
      obtain ⟨choice, later, first, second, rfl⟩ := resolve_later_cons resolved
      rw [List.any_cons, List.any_cons, ih second, resolve_type_name first]
      rfl

theorem resolve_later_admits {policy : EmptyPolicy} {place : String} {types : List (TypeSpec φ)}
    {choices : List (Choice φ)} {value : Value φ}
    (validators : List (BasicType × List (Function φ)))
    (resolved : Shape.resolveLater policy place types = .ok choices)
    (agrees : ∀ type ∈ types, TypeAgrees type)
    (plain : ∀ inner ∈ types.filterMap TypeSpec.inline?, inner.EveryLevel Path.PlainKeys)
    (valuePlain : value.EveryLevel Path.PlainKeys) :
    (∃ choice ∈ choices, choice.accepts value = true ∧
        isConfirmed validators choice.typeName? value = true) ↔
      typesAdmit validators types value = true := by
  induction types generalizing choices with
  | nil =>
      rw [Shape.resolveLater] at resolved
      rw [← Except.ok.inj resolved]
      simp [typesAdmit]
  | cons type rest ih =>
      obtain ⟨choice, later, first, second, rfl⟩ := resolve_later_cons resolved
      obtain ⟨typePlain, restPlain⟩ := TypeSpec.forall_inline_cons_iff.mp plain
      have head := agrees type List.mem_cons_self policy place choice value first typePlain valuePlain
      have tail := ih second (fun other among => agrees other (List.mem_cons_of_mem _ among)) restPlain
      simp only [List.mem_cons, or_and_right, exists_or, exists_eq_left]
      rw [typesAdmit, Bool.or_eq_true, Bool.and_eq_true, tail, head, resolve_type_name first]

/-- The step along the members: plain keys keep what they lay out apart. -/
theorem members_agree_cons {key : String} {member : Member φ} {rest : List (String × Member φ)}
    (here : MemberAgrees key member) (later : MembersAgree rest) :
    MembersAgree ((key, member) :: rest) := by
  intro policy label above declared root value depth laidOut plain rootPlain reaches short
  obtain ⟨own, others, first, second, rfl⟩ := Shape.lay_out_cons laidOut
  obtain ⟨front, spelled⟩ := Value.spells_of_reaches reaches
  have apart := Shape.lay_out_siblings_apart spelled plain first second
  obtain ⟨keyPlain, _, innerPlain, restPlain⟩ := plain_members_cons plain
  have ownShort : ∀ property ∈ own, Path.depth property.path ≤ depth :=
    fun property laid => short property (List.mem_append_left _ laid)
  have othersShort : ∀ property ∈ others, Path.depth property.path ≤ depth :=
    fun property laid => short property (List.mem_append_right _ laid)
  rw [Shape.settled_by_append _ apart, membersAdmit, Bool.and_eq_true]
  apply and_congr
  · exact here policy label above own root value depth first keyPlain innerPlain rootPlain reaches
      ownShort
  · exact later policy label above others root value depth second restPlain rootPlain reaches
      othersShort

/-- A member that is not nested. -/
theorem leaf_agrees {key : String} {member : Member φ}
    (flat : ∀ required validators inner, member ≠ .nested required validators inner)
    (types : ∀ type ∈ member.types, TypeAgrees type) : MemberAgrees key member := by
  intro policy label above own root value depth laidOut keyPlain innerPlain rootPlain reaches short
  obtain ⟨choices, resolved, rfl⟩ := Shape.lay_out_leaf flat laidOut
  have ownShort := short _ List.mem_cons_self
  have keyShort : Path.depth (Path.join above key) ≤ depth := ownShort
  have part := Value.part_at_of_reaches rootPlain reaches keyPlain keyShort
  have partPlain := Value.plain_child_at (Value.plain_of_reaches rootPlain reaches) key
  have inlinePlain := innerPlain
  rw [Member.inner_of_leaf flat] at inlinePlain
  have admitted := resolve_later_admits member.validators resolved types inlinePlain partPlain
  rw [List.forall_mem_singleton, Shape.settled_by_singleton, part, Property.settle_meets_iff,
    leaf_admits_eq flat]
  simp only [Property.Matches, Property.acceptsUndefined, admitted, resolve_later_undefined resolved]
  simp [or_assoc]

omit [Host φ] in
theorem child_of_object_like {value : Value φ} {key : String}
    (like : (value.childAt key).isObjectLike = true) :
    value.child? key = some (value.childAt key) := by
  unfold Value.childAt at like ⊢
  cases found : value.child? key with
  | none =>
      rw [found] at like
      exact absurd like Bool.false_ne_true
  | some part => rfl

theorem object_like_of_name_admits {validators : List (BasicType × List (Function φ))}
    {part : Value φ} (admitted : nameAdmits validators .object part = true) :
    part.isObjectLike = true :=
  (Bool.and_eq_true_iff.mp admitted).1

theorem not_undefined_admits_of_object_like {validators : List (BasicType × List (Function φ))}
    {part : Value φ} (like : part.isObjectLike = true) :
    nameAdmits validators .undefined part = false := by
  have present : BasicType.accepts .undefined part = false := not_undefined_of_object_like like
  rw [nameAdmits, present, Bool.false_and]

section Nested

variable (path : String) (required : Bool) (validators : List (BasicType × List (Function φ)))

def Property.ofNested : Property φ :=
  { path, required, choices := [.named .object], validators }

omit [Host φ] in
theorem of_nested_path : (Property.ofNested (φ := φ) path required validators).path = path := rfl

theorem nested_meets_iff (part : Value φ) :
    (Property.ofNested path required validators).settle.Meets part ↔
      nameAdmits validators .object part = true ∨
        required = false ∧ nameAdmits validators .undefined part = true := by
  have matched : (Property.ofNested path required validators).Matches part ↔
      nameAdmits validators .object part = true := by
    rw [← Property.name_choice_iff]
    simp [Property.Matches, Property.ofNested]
  rw [Property.settle_meets_iff, matched]
  apply and_iff_left_of_imp
  intro admitted
  rcases admitted with object | absent
  · exact .inl (not_undefined_of_object_like (object_like_of_name_admits object))
  · exact .inr (.inl absent.1)

theorem nested_covers_iff (part : Value φ) :
    (Property.ofNested path required validators).settle.Covers part ↔
      nameAdmits validators .object part = false ∧
        required = false ∧ nameAdmits validators .undefined part = true := by
  have object : ((Choice.named .object : Choice φ).accepts part &&
      isConfirmed validators (Choice.named .object : Choice φ).typeName? part) =
        nameAdmits validators .object part := rfl
  have absent : ((Choice.named .undefined : Choice φ).accepts part &&
      isConfirmed validators (Choice.named .undefined : Choice φ).typeName? part) =
        nameAdmits validators .undefined part := rfl
  have settled : (Property.ofNested path required validators).settle.choices =
      if required then [.named .object] else [.named .object, .named .undefined] := by
    cases required <;> rfl
  have same : (Property.ofNested path required validators).settle.validators = validators := rfl
  rw [Property.Covers, Property.matching_eq_find, settled, same]
  cases required <;> cases admitsObject : nameAdmits validators .object part <;>
    cases admitsAbsent : nameAdmits validators .undefined part <;>
    simp only [if_true, Bool.false_eq_true, if_false, List.find?_cons, List.find?_nil, object, absent,
      admitsObject, admitsAbsent] <;>
    simp [Choice.typeName?]

end Nested

/-- A nested object settles its members if it is absent, and leaves them to be checked if it is
there. -/
theorem nested_agrees {key : String} {required : Bool}
    {validators : List (BasicType × List (Function φ))} {members : List (String × Member φ)}
    (inside : MembersAgree members) :
    MemberAgrees key (.nested required validators ⟨members⟩) := by
  intro policy label above own root value depth laidOut keyPlain innerPlain rootPlain reaches short
  obtain ⟨inner, further, rfl⟩ := Shape.lay_out_nested laidOut
  have ownShort := short _ List.mem_cons_self
  have keyShort : Path.depth (Path.join above key) ≤ depth := ownShort
  have innerShort : ∀ property ∈ inner, Path.depth property.path ≤ depth :=
    fun property laid => short property (List.mem_cons_of_mem _ laid)
  have part := Value.part_at_of_reaches rootPlain reaches keyPlain keyShort
  have membersPlain : PlainMembers members := innerPlain ⟨members⟩ (by simp [Member.inner])
  have below := Shape.lay_out_nested_below (Path.join_ne_empty above keyPlain.1) further
  have top := Shape.settled_by_cons (Property.ofNested (Path.join above key) required validators)
    (root.outline depth) below
  rw [of_nested_path, part, nested_meets_iff, nested_covers_iff] at top
  rw [Member.admits]
  refine top.trans ?_
  -- Only a part that is an object is stepped into, so only then is there a child to reach.
  cases admitsObject : nameAdmits validators .object (value.childAt key) with
  | false =>
      simp only [Bool.false_eq_true, false_or, true_and, Bool.false_and, Bool.and_eq_true,
        Bool.not_eq_true', Bool.or_eq_true]
      constructor
      · exact fun absent => absent.1
      · exact fun absent => ⟨absent, .inl absent⟩
  | true =>
      have like := object_like_of_name_admits admitsObject
      have child := child_of_object_like like
      have settled := inside policy label (some (Path.join above key)) inner root
        (value.childAt key) depth further membersPlain rootPlain
        (Value.reaches_child reaches keyPlain child) innerShort
      simp [not_undefined_admits_of_object_like like, settled]

/-- The step from the members of a declaration to the whole. -/
theorem build_agrees_of_members {members : List (String × Member φ)}
    (agrees : MembersAgree members) : BuildAgrees ⟨members⟩ := by
  intro policy label sorted shape value built plain valuePlain
  rcases Shape.build_cases built with disabled | assembled
  · obtain ⟨rfl, _, rfl⟩ := disabled
    rfl
  · obtain ⟨filled, declared, laidOut, rfl⟩ := assembled
    have ordered : Shape.Ordered declared :=
      Shape.lay_out_ordered policy label none [] Path.spells_none members plain declared laidOut
    have settled := agrees policy label none declared value value
      (Shape.ofProperties sorted declared).depth laidOut plain valuePlain (Value.reaches_root value)
      (fun property laid => Shape.depth_of_path sorted ordered laid)
    have someMember : members.isEmpty = false := by
      simpa using filled
    rw [Bool.eq_iff_iff, Shape.assembled_accepts_iff sorted ordered, settled, Declaration.admits]
    simp [someMember]

mutual

theorem build_agrees : (declaration : Declaration φ) → BuildAgrees declaration
  | ⟨members⟩ => build_agrees_of_members (members_agree members)
termination_by structural declaration => declaration

theorem members_agree : (members : List (String × Member φ)) → MembersAgree members
  | [] => by
      intro policy label above declared root value depth laidOut _ _ _ _
      simp [Shape.lay_out_nil laidOut, membersAdmit]
  | (_, member) :: rest => members_agree_cons (member_agrees _ member) (members_agree rest)
termination_by structural members => members

theorem member_agrees (key : String) : (member : Member φ) → MemberAgrees key member
  | .single type => leaf_agrees (by simp)
      fun _ among => List.mem_singleton.mp among ▸ type_agrees type
  | .anyOf types => leaf_agrees (by simp) (types_agree types)
  | .record _ types _ => leaf_agrees (by simp) (types_agree types)
  | .nested _ _ ⟨members⟩ => nested_agrees (members_agree members)
termination_by structural member => member

theorem types_agree : (types : List (TypeSpec φ)) → ∀ type ∈ types, TypeAgrees type
  | [] => fun _ among => absurd among List.not_mem_nil
  | first :: rest => List.forall_mem_cons.mpr ⟨type_agrees first, types_agree rest⟩
termination_by structural types => types

theorem type_agrees : (type : TypeSpec φ) → TypeAgrees type
  | .named type => by
      intro policy place choice value resolved _ _
      rw [Shape.resolve] at resolved
      rw [← Except.ok.inj resolved]
      rfl
  | .instanceOf expected => by
      intro policy place choice value resolved _ _
      rw [Shape.resolve] at resolved
      rw [← Except.ok.inj resolved]
      rfl
  | .predicate function => by
      intro policy place choice value resolved _ _
      rw [Shape.resolve] at resolved
      rw [← Except.ok.inj resolved]
      rfl
  | .schematic ⟨serial, shape⟩ => by
      intro policy place choice value resolved _ _
      rw [Shape.resolve] at resolved
      rw [← Except.ok.inj resolved]
      rfl
  | .inline declaration => by
      intro policy place choice value resolved plain valuePlain
      rw [Shape.resolve, bind_eq_ok_iff] at resolved
      obtain ⟨shape, built, made⟩ := resolved
      rw [← pure_eq_ok_iff.mp made]
      exact build_agrees declaration policy (some place) false shape value built
        (plain declaration rfl) valuePlain
termination_by structural type => type

end

/-- An optional object with a name, and a choice between no tags and at least one. -/
def tagged : Declaration Empty :=
  ⟨[("owner", .nested false [] ⟨[("name", .single (.named .string))]⟩),
    ("tags", .anyOf [.named .null, .inline ⟨[("0", .single (.named .string))]⟩])]⟩

def taggedValue : Value Empty :=
  .object ⟨0, 0⟩ [("owner", .object ⟨1, 1⟩ [("name", .string "Ada")]),
    ("tags", .array [.string "first", .string "second"])]

theorem tagged_plain : tagged.EveryLevel Path.PlainKeys := by decide

theorem tagged_value_plain : taggedValue.EveryLevel Path.PlainKeys := by decide

/-- Compiling to flat dotted paths keeps the meaning of a declaration. -/
theorem compiled_accepts_eq_admits (policy : EmptyPolicy) (declaration : Declaration φ)
    (shape : Shape φ) (value : Value φ) (compiled : declaration.compile policy = .ok shape)
    (plain : declaration.EveryLevel Path.PlainKeys)
    (valuePlain : value.EveryLevel Path.PlainKeys) :
    shape.accepts value = declaration.admits value :=
  build_agrees declaration policy none true shape value compiled plain valuePlain

theorem tagged_accepts_eq_admits :
    ∃ shape, tagged.compile .reject = .ok shape ∧ tagged.EveryLevel Path.PlainKeys ∧
      taggedValue.EveryLevel Path.PlainKeys ∧
      shape.accepts taggedValue = tagged.admits taggedValue ∧
      tagged.admits taggedValue = true := by
  have ran : (tagged.compile .reject).isOk = true := by cbv
  cases compiled : tagged.compile .reject with
  | error fault =>
      rw [compiled] at ran
      exact absurd ran Bool.false_ne_true
  | ok shape =>
      exact ⟨shape, rfl, tagged_plain, tagged_value_plain,
        compiled_accepts_eq_admits .reject tagged shape taggedValue compiled tagged_plain
          tagged_value_plain, by decide⟩

end ObjectShape
