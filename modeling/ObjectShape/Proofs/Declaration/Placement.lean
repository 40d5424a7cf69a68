import Mathlib.Data.List.Forall2
import ObjectShape.Fault
import ObjectShape.Proofs.Declaration.Levels
import ObjectShape.Shape.Compilation

/-!
# Placed members

The members of a declaration and of the objects nested in it, as one list in the order of
declaration, each under its dotted path. Laying out takes them one after the other, so what a
declaration compiles to, and whether it does, is said member by member.
-/

namespace ObjectShape

set_option autoImplicit false

variable {φ : Type}

mutual

/-- The members under their paths below `above`, a nested one before those inside it. -/
def placements (above : Option String) : List (String × Member φ) → List (String × Member φ)
  | [] => []
  | (key, member) :: rest =>
      (Path.join above key, member) ::
        (placementsInside (Path.join above key) member ++ placements above rest)
termination_by structural members => members

def placementsInside (path : String) : Member φ → List (String × Member φ)
  | .single _ | .anyOf _ | .record _ _ _ => []
  | .nested _ _ ⟨members⟩ => placements (some path) members
termination_by structural member => member

end

/-- A property of the declaration, or of an object nested in it, lists the other declaration among
its types. -/
def Declaration.Lists (declaration inner : Declaration φ) : Prop :=
  ∃ entry ∈ placements none declaration.members, .inline inner ∈ entry.2.types

theorem placements_inside_of_flat {member : Member φ}
    (flat : ∀ required validators inner, member ≠ .nested required validators inner)
    (path : String) : placementsInside path member = [] := by
  cases member with
  | nested required validators inner => exact absurd rfl (flat required validators inner)
  | _ => rfl

theorem placements_ne_nil (above : Option String) {members : List (String × Member φ)}
    (filled : members ≠ []) : placements above members ≠ [] := by
  cases members with
  | nil => exact absurd rfl filled
  | cons entry rest => exact List.cons_ne_nil _ _

theorem map_m_eq_ok_iff {ε α β : Type} {step : α → Except ε β} {items : List α}
    {results : List β} :
    items.mapM step = .ok results ↔
      List.Forall₂ (fun item result => step item = .ok result) items results := by
  induction items generalizing results with
  | nil =>
      rw [List.mapM_nil, pure_eq_ok_iff, List.forall₂_nil_left_iff]
      exact eq_comm
  | cons item rest ih =>
      simp only [List.mapM_cons, bind_eq_ok_iff, pure_eq_ok_iff, ih, List.forall₂_cons_left_iff]
      constructor
      · intro taken
        obtain ⟨first, here, later, further, joined⟩ := taken
        exact ⟨first, later, here, further, joined.symm⟩
      · intro taken
        obtain ⟨first, later, here, further, joined⟩ := taken
        exact ⟨first, here, later, further, joined.symm⟩

theorem exists_of_forall₂ {α β : Type} {related : α → β → Prop} {items : List α}
    {results : List β} (each : List.Forall₂ related items results) {result : β}
    (member : result ∈ results) : ∃ item ∈ items, related item result := by
  induction each with
  | nil => exact absurd member List.not_mem_nil
  | cons here _ ih =>
      rcases List.mem_cons.mp member with rfl | later
      · exact ⟨_, List.mem_cons_self, here⟩
      · obtain ⟨item, among, same⟩ := ih later
        exact ⟨item, List.mem_cons_of_mem _ among, same⟩

def Choice.nested? : Choice φ → Option (Shape φ)
  | .nested shape => some shape
  | .named _ | .predicate _ | .instanceOf _ | .schematic _ => none

theorem mem_inline_iff {types : List (TypeSpec φ)} {inner : Declaration φ} :
    inner ∈ types.filterMap TypeSpec.inline? ↔ .inline inner ∈ types := by
  have only : ∀ type : TypeSpec φ, type.inline? = some inner ↔ type = .inline inner := by
    intro type
    cases type <;> simp [TypeSpec.inline?]
  simp [only]

theorem mem_nested_iff {choices : List (Choice φ)} {shape : Shape φ} :
    shape ∈ choices.filterMap Choice.nested? ↔ .nested shape ∈ choices := by
  have only : ∀ choice : Choice φ, choice.nested? = some shape ↔ choice = .nested shape := by
    intro choice
    cases choice <;> simp [Choice.nested?]
  simp [only]

namespace Shape

theorem resolve_later_eq_map_m (policy : EmptyPolicy) (place : String)
    (types : List (TypeSpec φ)) :
    resolveLater policy place types = types.mapM (resolve policy place) := by
  induction types with
  | nil => rfl
  | cons type rest ih => rw [resolveLater, List.mapM_cons, ih]

theorem resolve_all_eq_ok_iff {policy : EmptyPolicy} {place : String} {types : List (TypeSpec φ)}
    {choices : List (Choice φ)} :
    resolveAll policy place types = .ok choices ↔
      types ≠ [] ∧ types.mapM (resolve policy place) = .ok choices := by
  cases types with
  | nil => simp [resolveAll]
  | cons type rest => simp [resolveAll, List.mapM_cons, resolve_later_eq_map_m]

def choicesOf (policy : EmptyPolicy) (place : String) :
    Member φ → Except SchemaFault (List (Choice φ))
  | .single type => do return [← resolve policy place type]
  | .anyOf types | .record _ types _ => resolveAll policy place types
  | .nested _ _ _ => .ok [.named .object]

def propertyOf (policy : EmptyPolicy) (label : Option String) (entry : String × Member φ) :
    Except SchemaFault (Property φ) := do
  let choices ← choicesOf policy (Path.join label entry.1) entry.2
  return { path := entry.1, required := entry.2.isRequired, choices,
           validators := entry.2.validators }

theorem lay_out_member_of_flat {member : Member φ}
    (flat : ∀ required validators inner, member ≠ .nested required validators inner)
    (policy : EmptyPolicy) (label : Option String) (path : String) :
    layOutMember policy label path member =
      propertyOf policy label (path, member) >>= fun property => pure [property] := by
  cases member with
  | nested required validators inner => exact absurd rfl (flat required validators inner)
  | _ => simp [layOutMember, propertyOf, choicesOf, Member.isRequired, Member.validators]

/-- Laying out members is taking the placed ones one after the other. -/
theorem lay_out_eq_map_m (policy : EmptyPolicy) (label above : Option String)
    (members : List (String × Member φ)) :
    layOut policy label above members = (placements above members).mapM (propertyOf policy label) := by
  induction members using members_induction generalizing above with
  | nil => rfl
  | leaf key member rest flat ih =>
      rw [layOut, placements, placements_inside_of_flat flat, List.nil_append, List.mapM_cons,
        lay_out_member_of_flat flat, ih]
      simp
  | nested key required validators members rest inside ih =>
      rw [layOut, placements, placementsInside, List.mapM_cons, List.mapM_append, layOutMember, inside, ih]
      simp [propertyOf, choicesOf, Member.isRequired, Member.validators]
      rfl

theorem choices_of_eq_ok_iff {policy : EmptyPolicy} {place : String} {member : Member φ}
    (flat : ∀ required validators inner, member ≠ .nested required validators inner)
    {choices : List (Choice φ)} :
    choicesOf policy place member = .ok choices ↔ member.types ≠ [] ∧
      List.Forall₂ (fun type choice => resolve policy place type = .ok choice)
        member.types choices := by
  rw [← map_m_eq_ok_iff]
  cases member with
  | nested required validators inner => exact absurd rfl (flat required validators inner)
  | single type => simp [choicesOf, Member.types]
  | anyOf types => exact resolve_all_eq_ok_iff
  | record required types validators => exact resolve_all_eq_ok_iff

theorem choices_of_ne_nil {policy : EmptyPolicy} {place : String} {member : Member φ}
    {choices : List (Choice φ)} (chosen : choicesOf policy place member = .ok choices) :
    choices ≠ [] := by
  by_cases flat : ∀ required validators inner, member ≠ .nested required validators inner
  · obtain ⟨filled, each⟩ := (choices_of_eq_ok_iff flat).mp chosen
    exact fun empty => filled (List.forall₂_nil_right_iff.mp (empty ▸ each))
  · push Not at flat
    obtain ⟨required, validators, inner, rfl⟩ := flat
    rw [← Except.ok.inj chosen]
    exact List.cons_ne_nil _ _

theorem nested_of_resolved {policy : EmptyPolicy} {place : String} {type : TypeSpec φ}
    {choice : Choice φ} (resolved : resolve policy place type = .ok choice) :
    Option.Rel (fun listed inner => build policy (some place) false listed = .ok inner)
      type.inline? choice.nested? := by
  cases type with
  | inline listed =>
      obtain ⟨inner, built, made⟩ := bind_eq_ok_iff.mp resolved
      rw [← pure_eq_ok_iff.mp made]
      exact .some built
  | _ =>
      rw [← Except.ok.inj resolved]
      exact .none

/-- The declarations among the types of a member are built one for one. -/
theorem nested_of_chosen {policy : EmptyPolicy} {place : String} {member : Member φ}
    {choices : List (Choice φ)} (chosen : choicesOf policy place member = .ok choices) :
    List.Forall₂ (fun listed inner => build policy (some place) false listed = .ok inner)
      (member.types.filterMap TypeSpec.inline?) (choices.filterMap Choice.nested?) := by
  by_cases flat : ∀ required validators inner, member ≠ .nested required validators inner
  · obtain ⟨_, each⟩ := (choices_of_eq_ok_iff flat).mp chosen
    exact List.rel_filterMap (fun _ _ resolved => nested_of_resolved resolved) each
  · push Not at flat
    obtain ⟨required, validators, inner, rfl⟩ := flat
    rw [← Except.ok.inj chosen]
    exact .nil

/-- A shape among the choices of a member is built from a declaration among its types. -/
theorem nested_of_choices_of {policy : EmptyPolicy} {place : String} {member : Member φ}
    {choices : List (Choice φ)} (chosen : choicesOf policy place member = .ok choices)
    {shape : Shape φ} (listed : .nested shape ∈ choices) :
    ∃ inner, .inline inner ∈ member.types ∧
      build policy (some place) false inner = .ok shape := by
  obtain ⟨inner, among, built⟩ :=
    exists_of_forall₂ (nested_of_chosen chosen) (mem_nested_iff.mpr listed)
  exact ⟨inner, mem_inline_iff.mp among, built⟩

end Shape

end ObjectShape
