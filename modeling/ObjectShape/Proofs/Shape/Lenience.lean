import ObjectShape.Proofs.Declaration.Vacancy

/-!
# What the policy and the label change

The label only stands in faults, and building is the same under both policies up to the first
declaration without members. There the strict run stops, and the lenient one goes on with a disabled
shape, which no later step takes out again: it is one of the choices of whatever shape the lenient
run yields, or of one nested in that. So what the strict policy builds under one label, every policy
builds under every label.
-/

namespace ObjectShape

set_option autoImplicit false

variable {φ : Type}

/-- What the strict run yields, the other one yields too. Where the strict one stops, the other one
stops at the same fault if their faults are labelled `alike`, unless the strict one stops at an empty
declaration; then `holds` is said of what the other one yields, if it yields anything. -/
structure Relaxes {α : Type} (alike : Prop) (holds : α → Prop)
    (strict lenient : Except SchemaFault α) : Prop where
  yields : ∀ result, strict = .ok result → lenient = .ok result
  stops : ∀ fault, strict = .error fault → (alike → lenient = .error fault) ∨
    (∃ path, fault = .emptySchema path) ∧ ∀ result, lenient = .ok result → holds result

section Steps

variable {α β : Type} {alike : Prop} {holds : α → Prop} {later : β → Prop}
variable {strict lenient : Except SchemaFault α}

theorem relaxes_refl (run : Except SchemaFault α) : Relaxes alike holds run run :=
  ⟨fun _ same => same, fun _ same => .inl fun _ => same⟩

theorem Relaxes.of_alike {closer : Prop} (relaxes : Relaxes alike holds strict lenient)
    (implied : closer → alike) : Relaxes closer holds strict lenient :=
  ⟨relaxes.yields, fun fault failed => (relaxes.stops fault failed).imp_left (· ∘ implied)⟩

/-- What holds of the first result has to be carried over to the second. -/
theorem relaxes_bind {next onwards : α → Except SchemaFault β}
    (here : Relaxes alike holds strict lenient)
    (further : ∀ value, Relaxes alike later (next value) (onwards value))
    (carried : ∀ value result, holds value → onwards value = .ok result → later result) :
    Relaxes alike later (strict >>= next) (lenient >>= onwards) := by
  cases strict with
  | ok value =>
      rw [here.yields value rfl]
      exact further value
  | error fault =>
      refine ⟨fun _ made => (nomatch made), fun other failed => ?_⟩
      obtain rfl := Except.error.inj failed
      refine (here.stops _ rfl).imp (fun same close => by rw [same close]; rfl) ?_
      intro stopped
      refine ⟨stopped.1, fun result made => ?_⟩
      obtain ⟨value, first, second⟩ := bind_eq_ok_iff.mp made
      exact carried value result (stopped.2 value first) second

theorem relaxes_map {make : α → β} (here : Relaxes alike holds strict lenient)
    (carried : ∀ value, holds value → later (make value)) :
    Relaxes alike later (strict >>= fun value => pure (make value))
      (lenient >>= fun value => pure (make value)) :=
  relaxes_bind here (fun _ => relaxes_refl _) fun value _ held made =>
    pure_eq_ok_iff.mp made ▸ carried value held

/-- Two runs one after the other: what holds of either result holds of the two joined. -/
theorem relaxes_both {γ : Type} {further : γ → Prop}
    {strictLater lenientLater : Except SchemaFault β} (join : α → β → γ) (here : Relaxes alike holds strict lenient)
    (onwards : Relaxes alike later strictLater lenientLater)
    (left : ∀ first second, holds first → further (join first second))
    (right : ∀ first second, later second → further (join first second)) :
    Relaxes alike further
      (strict >>= fun first => strictLater >>= fun second => pure (join first second))
      (lenient >>= fun first => lenientLater >>= fun second => pure (join first second)) := by
  refine relaxes_bind here (fun first => relaxes_map onwards (right first)) ?_
  intro first result held made
  obtain ⟨second, _, joined⟩ := bind_eq_ok_iff.mp made
  exact pure_eq_ok_iff.mp joined ▸ left first second held

end Steps

namespace Shape

/-- The shape is disabled, or a disabled shape is nested in it at some depth. -/
def HoldsDisabled (shape : Shape φ) : Prop :=
  ∃ inner, Relation.ReflTransGen Nests shape inner ∧ inner = disabled

def ChoiceHoldsDisabled (choice : Choice φ) : Prop :=
  ∃ shape, choice = .nested shape ∧ shape.HoldsDisabled

def ChoicesHoldDisabled (choices : List (Choice φ)) : Prop :=
  ∃ choice ∈ choices, ChoiceHoldsDisabled choice

def PropertiesHoldDisabled (declared : List (Property φ)) : Prop :=
  ∃ property ∈ declared, ChoicesHoldDisabled property.choices

/-- A shape that is a choice of a declared property is nested in what the properties make. -/
theorem nests_of_declared (sorted : Bool) {declared : List (Property φ)} {property : Property φ}
    (laid : property ∈ declared) {inner : Shape φ} (chosen : .nested inner ∈ property.choices) :
    (ofProperties sorted declared).Nests inner := by
  have listed : inner ∈ (ofProperties sorted declared).nestedAt property.path := by
    rw [nested_at_of_properties]
    exact List.mem_flatMap.mpr
      ⟨property, mem_declared_at.mpr ⟨laid, rfl⟩, mem_nested_iff.mpr chosen⟩
  rw [nestedAt] at listed
  cases found : (ofProperties sorted declared).property? property.path with
  | none => exact absurd listed (by simp [found])
  | some merged =>
      rw [found] at listed
      exact ⟨(property.path, merged), Entries.mem_of_get? found, mem_nested_iff.mp listed⟩

theorem holds_disabled_of_properties (sorted : Bool) {declared : List (Property φ)}
    (held : PropertiesHoldDisabled declared) : (ofProperties sorted declared).HoldsDisabled := by
  obtain ⟨property, laid, _, chosen, inner, rfl, last, within, same⟩ := held
  exact ⟨last, .head (nests_of_declared sorted laid chosen) within, same⟩

def BuildRelaxes (declaration : Declaration φ) : Prop :=
  ∀ policy label other sorted, Relaxes (label = other) HoldsDisabled
    (build .reject label sorted declaration) (build policy other sorted declaration)

def LayOutRelaxes (members : List (String × Member φ)) : Prop :=
  ∀ policy label other above, Relaxes (label = other) PropertiesHoldDisabled
    (layOut .reject label above members) (layOut policy other above members)

def LayOutMemberRelaxes (member : Member φ) : Prop :=
  ∀ policy label other path, Relaxes (label = other) PropertiesHoldDisabled
    (layOutMember .reject label path member) (layOutMember policy other path member)

def ResolveLaterRelaxes (types : List (TypeSpec φ)) : Prop :=
  ∀ policy place other, Relaxes (place = other) ChoicesHoldDisabled
    (resolveLater .reject place types) (resolveLater policy other types)

def ResolveRelaxes (type : TypeSpec φ) : Prop :=
  ∀ policy place other, Relaxes (place = other) ChoiceHoldsDisabled
    (resolve .reject place type) (resolve policy other type)

theorem resolve_all_relaxes {types : List (TypeSpec φ)} (each : ResolveLaterRelaxes types)
    (policy : EmptyPolicy) (label other : Option String) (path : String) :
    Relaxes (label = other) ChoicesHoldDisabled (resolveAll .reject (Path.join label path) types)
      (resolveAll policy (Path.join other path) types) := by
  cases types with
  | nil =>
      refine ⟨fun _ made => (nomatch made), fun fault failed => .inl fun same => ?_⟩
      rw [← same]
      exact failed
  | cons type rest => exact (each policy _ _).of_alike (congrArg (Path.join · path))

mutual

theorem build_relaxes : (declaration : Declaration φ) → BuildRelaxes declaration
  | ⟨[]⟩ => by
      intro policy label other _
      refine ⟨fun _ made => (nomatch made), fun fault failed => .inr ?_⟩
      refine ⟨⟨label, (Except.error.inj failed).symm⟩, fun shape made => ?_⟩
      cases policy with
      | reject => exact nomatch made
      | disable => exact ⟨shape, .refl, (Except.ok.inj made).symm⟩
  | ⟨first :: rest⟩ => by
      intro policy label other sorted
      exact relaxes_map (lay_out_relaxes (first :: rest) policy label other none) fun _ =>
        holds_disabled_of_properties sorted
termination_by structural declaration => declaration

theorem lay_out_relaxes : (members : List (String × Member φ)) → LayOutRelaxes members
  | [] => fun _ _ _ _ => relaxes_refl _
  | (key, member) :: rest => by
      intro policy label other above
      have own := lay_out_member_relaxes member policy label other (Path.join above key)
      have later := lay_out_relaxes rest policy label other above
      apply relaxes_both (· ++ ·) own later
      · rintro _ _ ⟨property, laid, held⟩
        exact ⟨property, List.mem_append_left _ laid, held⟩
      · rintro _ _ ⟨property, laid, held⟩
        exact ⟨property, List.mem_append_right _ laid, held⟩
termination_by structural members => members

theorem lay_out_member_relaxes : (member : Member φ) → LayOutMemberRelaxes member
  | .single type => by
      intro policy label other path
      have here := resolve_relaxes type policy (Path.join label path) (Path.join other path)
      apply relaxes_map (here.of_alike (congrArg (Path.join · path)))
      exact fun choice held => ⟨_, List.mem_cons_self, choice, List.mem_cons_self, held⟩
  | .anyOf types => by
      intro policy label other path
      apply relaxes_map (resolve_all_relaxes (resolve_later_relaxes types) policy label other path)
      exact fun _ held => ⟨_, List.mem_cons_self, held⟩
  | .record _ types _ => by
      intro policy label other path
      apply relaxes_map (resolve_all_relaxes (resolve_later_relaxes types) policy label other path)
      exact fun _ held => ⟨_, List.mem_cons_self, held⟩
  | .nested _ _ ⟨members⟩ => by
      intro policy label other path
      apply relaxes_map (lay_out_relaxes members policy label other (some path))
      rintro _ ⟨property, laid, held⟩
      exact ⟨property, List.mem_cons_of_mem _ laid, held⟩
termination_by structural member => member

theorem resolve_later_relaxes : (types : List (TypeSpec φ)) → ResolveLaterRelaxes types
  | [] => fun _ _ _ => relaxes_refl _
  | type :: rest => by
      intro policy place other
      apply relaxes_both (· :: ·) (resolve_relaxes type policy place other)
        (resolve_later_relaxes rest policy place other)
      · exact fun choice _ held => ⟨choice, List.mem_cons_self, held⟩
      · rintro _ _ ⟨choice, chosen, held⟩
        exact ⟨choice, List.mem_cons_of_mem _ chosen, held⟩
termination_by structural types => types

theorem resolve_relaxes : (type : TypeSpec φ) → ResolveRelaxes type
  | .named _ | .instanceOf _ | .predicate _ | .schematic _ => fun _ _ _ => relaxes_refl _
  | .inline declaration => by
      intro policy place other
      have here := build_relaxes declaration policy (some place) (some other) false
      apply relaxes_map (here.of_alike (congrArg some))
      exact fun shape held => ⟨shape, rfl, held⟩
termination_by structural type => type

end

def unfinished : Declaration Empty :=
  ⟨[("a", .nested true [] ⟨[("b", .anyOf [])]⟩), ("c", .single (.inline ⟨[]⟩))]⟩

/-- The policy decides nothing but what becomes of empty declarations: what the strict one compiles,
the lenient one compiles to the same shape; what the strict one refuses for another reason, the
lenient one refuses for the same; and what only the lenient one compiles holds a disabled shape. -/
theorem compile_policies_agree (declaration : Declaration φ) :
    (∀ shape, declaration.compile .reject = .ok shape →
        declaration.compile .disable = .ok shape) ∧
      (∀ fault, declaration.compile .reject = .error fault → (∀ path, fault ≠ .emptySchema path) →
        declaration.compile .disable = .error fault) ∧
      ∀ fault shape, declaration.compile .reject = .error fault →
        declaration.compile .disable = .ok shape →
          (∃ path, fault = .emptySchema path) ∧ shape.HoldsDisabled := by
  have relaxes := build_relaxes declaration .disable none none true
  refine ⟨relaxes.yields, fun fault failed other => ?_, fun fault shape failed made => ?_⟩
  · rcases relaxes.stops fault failed with same | ⟨⟨path, empty⟩, _⟩
    · exact same rfl
    · exact absurd empty (other path)
  · rcases relaxes.stops fault failed with same | ⟨empty, yields⟩
    · exact nomatch (same rfl).symm.trans made
    · exact ⟨empty, yields shape made⟩

theorem unfinished_policies_agree :
    childFirst.compile .reject = .ok childFirstShape ∧
      childFirst.compile .disable = .ok childFirstShape ∧
      unfinished.compile .reject = .error (.invalidPropertyType "a.b") ∧
      unfinished.compile .disable = .error (.invalidPropertyType "a.b") ∧
      repeated.compile .reject = .error (.emptySchema (some "c")) ∧
      repeated.compile .disable = .ok repeatedShape ∧ repeatedShape.HoldsDisabled := by
  have compiled : childFirst.compile .reject = .ok childFirstShape := by cbv
  have untyped : unfinished.compile .reject = .error (.invalidPropertyType "a.b") := by cbv
  have empty : repeated.compile .reject = .error (.emptySchema (some "c")) := by cbv
  have lenient : repeated.compile .disable = .ok repeatedShape := by cbv
  obtain ⟨kept, _, _⟩ := compile_policies_agree childFirst
  obtain ⟨_, refused, _⟩ := compile_policies_agree unfinished
  obtain ⟨_, _, holds⟩ := compile_policies_agree repeated
  exact ⟨compiled, kept _ compiled, untyped, refused _ untyped (by simp), empty, lenient,
    (holds _ _ empty lenient).2⟩

end Shape

end ObjectShape
