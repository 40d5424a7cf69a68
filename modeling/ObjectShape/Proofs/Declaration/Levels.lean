import ObjectShape.Declaration.Basic
import ObjectShape.Proofs.Path.Plain

/-!
# The levels of a declaration

A declaration has its own keys, and below them those of the declarations it nests in place and of
those it lists as types. A member that is not nested has types, a flag and validators, whichever
way it is written.
-/

namespace ObjectShape

set_option autoImplicit false

variable {φ : Type}

namespace TypeSpec

def typeName? : TypeSpec φ → Option BasicType
  | .named type => some type
  | .instanceOf _ | .predicate _ | .inline _ | .schematic _ => none

def inline? : TypeSpec φ → Option (Declaration φ)
  | .inline declaration => some declaration
  | .named _ | .instanceOf _ | .predicate _ | .schematic _ => none

variable {holds : Declaration φ → Prop} {type : TypeSpec φ} {rest : List (TypeSpec φ)}

theorem forall_inline_cons_iff :
    (∀ inner ∈ (type :: rest).filterMap inline?, holds inner) ↔
      (∀ inner ∈ type.inline?, holds inner) ∧ ∀ inner ∈ rest.filterMap inline?, holds inner := by
  cases found : type.inline? <;> simp [found]

theorem forall_inline_singleton_iff :
    (∀ inner ∈ [type].filterMap inline?, holds inner) ↔ ∀ inner ∈ type.inline?, holds inner := by
  rw [forall_inline_cons_iff]
  exact and_iff_left (by simp)

end TypeSpec

namespace Member

def isRequired : Member φ → Bool
  | .single _ | .anyOf _ => true
  | .record required _ _ => required
  | .nested required _ _ => required

/-- The types a value there may have; a nested object lists none. -/
def types : Member φ → List (TypeSpec φ)
  | .single type => [type]
  | .anyOf types => types
  | .record _ types _ => types
  | .nested _ _ _ => []

def validators : Member φ → List (BasicType × List (Function φ))
  | .single _ | .anyOf _ => []
  | .record _ _ validators => validators
  | .nested _ validators _ => validators

def inner : Member φ → List (Declaration φ)
  | .nested _ _ inner => [inner]
  | member => member.types.filterMap TypeSpec.inline?

theorem inner_of_leaf {member : Member φ}
    (flat : ∀ required validators inner, member ≠ .nested required validators inner) :
    member.inner = member.types.filterMap TypeSpec.inline? := by
  cases member with
  | nested required validators inner => exact absurd rfl (flat required validators inner)
  | _ => rfl

end Member

/-- Induction along the members and the objects nested in place, not into the types. -/
theorem members_induction {motive : List (String × Member φ) → Prop} (nil : motive [])
    (leaf : ∀ key member rest,
      (∀ required validators inner, member ≠ .nested required validators inner) →
        motive rest → motive ((key, member) :: rest))
    (nested : ∀ key required validators members rest, motive members → motive rest →
      motive ((key, .nested required validators ⟨members⟩) :: rest)) :
    (members : List (String × Member φ)) → motive members
  | [] => nil
  | (key, .single type) :: rest => leaf key _ rest (by simp) (members_induction nil leaf nested rest)
  | (key, .anyOf types) :: rest => leaf key _ rest (by simp) (members_induction nil leaf nested rest)
  | (key, .record required types validators) :: rest =>
      leaf key _ rest (by simp) (members_induction nil leaf nested rest)
  | (key, .nested required validators ⟨members⟩) :: rest =>
      nested key required validators members rest (members_induction nil leaf nested members)
        (members_induction nil leaf nested rest)

inductive Declaration.Throughout (holds : List (String × Member φ) → Prop) :
    Declaration φ → Prop where
  | of {declaration : Declaration φ} (here : holds declaration.members)
      (further : ∀ entry ∈ declaration.members, ∀ inner ∈ entry.2.inner,
        Throughout holds inner) : Throughout holds declaration

/-- What is said of the keys holds of those at every level of a declaration. -/
def Declaration.EveryLevel (holds : List String → Prop) : Declaration φ → Prop :=
  Throughout fun members => holds (Entries.keys members)

mutual

def Declaration.levels : Declaration φ → List (List (String × Member φ))
  | ⟨members⟩ => members :: levelsInside members
termination_by structural declaration => declaration

def levelsInside : List (String × Member φ) → List (List (String × Member φ))
  | [] => []
  | (_, member) :: rest => member.levels ++ levelsInside rest
termination_by structural members => members

def Member.levels : Member φ → List (List (String × Member φ))
  | .single type => type.levels
  | .anyOf types => levelsOfTypes types
  | .record _ types _ => levelsOfTypes types
  | .nested _ _ inner => inner.levels
termination_by structural member => member

def levelsOfTypes : List (TypeSpec φ) → List (List (String × Member φ))
  | [] => []
  | type :: rest => type.levels ++ levelsOfTypes rest
termination_by structural types => types

def TypeSpec.levels : TypeSpec φ → List (List (String × Member φ))
  | .inline declaration => declaration.levels
  | .named _ | .instanceOf _ | .predicate _ | .schematic _ => []
termination_by structural type => type

end

section Levels

variable {holds : List (String × Member φ) → Prop}

mutual

theorem throughout_iff : (declaration : Declaration φ) →
    (declaration.Throughout holds ↔ ∀ level ∈ declaration.levels, holds level)
  | ⟨members⟩ => by
      rw [Declaration.levels, List.forall_mem_cons, ← members_throughout_iff members]
      constructor
      · rintro ⟨here, further⟩
        exact ⟨here, further⟩
      · exact fun both => .of both.1 both.2
termination_by structural declaration => declaration

theorem members_throughout_iff : (members : List (String × Member φ)) →
    ((∀ entry ∈ members, ∀ inner ∈ entry.2.inner, inner.Throughout holds) ↔
      ∀ level ∈ levelsInside members, holds level)
  | [] => by simp [levelsInside]
  | (_, member) :: rest => by
      rw [levelsInside, List.forall_mem_append, List.forall_mem_cons, member_throughout_iff member,
        members_throughout_iff rest]
termination_by structural members => members

theorem member_throughout_iff : (member : Member φ) →
    ((∀ inner ∈ member.inner, inner.Throughout holds) ↔ ∀ level ∈ member.levels, holds level)
  | .single type => by
      rw [Member.levels, ← type_throughout_iff type]
      exact TypeSpec.forall_inline_singleton_iff
  | .anyOf types => types_throughout_iff types
  | .record _ types _ => types_throughout_iff types
  | .nested _ _ inner => by
      rw [Member.levels, ← throughout_iff inner]
      exact List.forall_mem_singleton
termination_by structural member => member

theorem types_throughout_iff : (types : List (TypeSpec φ)) →
    ((∀ inner ∈ types.filterMap TypeSpec.inline?, inner.Throughout holds) ↔
      ∀ level ∈ levelsOfTypes types, holds level)
  | [] => by simp [levelsOfTypes]
  | type :: rest => by
      rw [levelsOfTypes, List.forall_mem_append, TypeSpec.forall_inline_cons_iff,
        type_throughout_iff type, types_throughout_iff rest]
termination_by structural types => types

theorem type_throughout_iff : (type : TypeSpec φ) →
    ((∀ inner ∈ type.inline?, inner.Throughout holds) ↔ ∀ level ∈ type.levels, holds level)
  | .inline declaration => by
      rw [TypeSpec.levels, ← throughout_iff declaration]
      simp [TypeSpec.inline?]
  | .named _ | .instanceOf _ | .predicate _ | .schematic _ => by
      simp [TypeSpec.levels, TypeSpec.inline?]
termination_by structural type => type

end

instance [DecidablePred holds] (declaration : Declaration φ) :
    Decidable (declaration.Throughout holds) :=
  decidable_of_iff _ (throughout_iff declaration).symm

end Levels

instance {holds : List String → Prop} [DecidablePred holds] (declaration : Declaration φ) :
    Decidable (declaration.EveryLevel holds) :=
  inferInstanceAs (Decidable (declaration.Throughout fun members => holds (Entries.keys members)))

/-- The keys of the members are distinct and plain, and so are those at every level inside. -/
def PlainMembers (members : List (String × Member φ)) : Prop :=
  Declaration.EveryLevel Path.PlainKeys ⟨members⟩

theorem plain_members_cons {key : String} {member : Member φ} {rest : List (String × Member φ)}
    (plain : PlainMembers ((key, member) :: rest)) :
    Path.IsPlain key ∧ key ∉ Entries.keys rest ∧
      (∀ inner ∈ member.inner, inner.EveryLevel Path.PlainKeys) ∧ PlainMembers rest := by
  obtain ⟨⟨distinct, keysPlain⟩, further⟩ := plain
  obtain ⟨fresh, distinct⟩ := List.nodup_cons.mp distinct
  refine ⟨keysPlain key (by simp [Entries.keys]), fresh, further (key, member) (by simp), ?_⟩
  refine .of ⟨distinct, fun other later => keysPlain other ?_⟩ fun entry later =>
    further entry (by simp [later])
  exact List.mem_cons_of_mem key later

theorem plain_of_mem_members {members : List (String × Member φ)} (plain : PlainMembers members)
    {key : String} (member : key ∈ Entries.keys members) : Path.IsPlain key := by
  obtain ⟨⟨_, keysPlain⟩, _⟩ := plain
  exact keysPlain key member

end ObjectShape
