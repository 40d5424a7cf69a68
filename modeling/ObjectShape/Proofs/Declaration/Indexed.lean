import ObjectShape.Proofs.Declaration.Grammar
import ObjectShape.Proofs.Declaration.Placement

/-!
# Declarations with an entry for each key

No key is declared twice at one level of a declaration, and no type has two groups among the
validators of one member. Declaring a property and registering a validator keep it so, and so does
reading an object whose fields have distinct keys.
-/

namespace ObjectShape

set_option autoImplicit false

variable {φ : Type}

/-- The keys are distinct, and so are the types that a member has validators for. -/
def EntriesOnce (members : List (String × Member φ)) : Prop :=
  (Entries.keys members).Nodup ∧
    ∀ entry ∈ members, (Entries.keys entry.2.validators).Nodup

instance (members : List (String × Member φ)) : Decidable (EntriesOnce members) :=
  inferInstanceAs (Decidable (_ ∧ _))

theorem entries_once_add_validator (type : BasicType) (function : Function φ)
    {validators : List (BasicType × List (Function φ))} (once : (Entries.keys validators).Nodup) :
    (Entries.keys (addValidator type function validators)).Nodup :=
  Entries.nodup_keys_upsert _ _ once

theorem entries_once_add_validators {known : List (BasicType × List (Function φ))}
    (once : (Entries.keys known).Nodup) (added : List (BasicType × List (Function φ))) :
    (Entries.keys (Property.addValidators known added)).Nodup := by
  rw [Property.addValidators]
  induction added generalizing known with
  | nil => exact once
  | cons group rest ih => exact ih (Entries.nodup_keys_upsert _ _ once)

namespace Declaration

/-- A declaration that has one entry for each key and each type, at every level. -/
structure Indexed (φ : Type) where
  declaration : Declaration φ
  once : declaration.Throughout EntriesOnce

theorem Throughout.imp {strong weak : List (String × Member φ) → Prop}
    (weaker : ∀ members, strong members → weak members) {declaration : Declaration φ}
    (level : declaration.Throughout strong) : declaration.Throughout weak := by
  induction level with
  | of here _ ih => exact .of (weaker _ here) ih

theorem Indexed.distinct (schema : Indexed φ) : schema.declaration.EveryLevel List.Nodup :=
  schema.once.imp fun _ once => once.1

theorem groups_of_placed (above : Option String) {members : List (String × Member φ)}
    (once : Throughout EntriesOnce ⟨members⟩) :
    ∀ entry ∈ placements above members, (Entries.keys entry.2.validators).Nodup := by
  induction members using members_induction generalizing above with
  | nil => exact fun _ member => absurd member List.not_mem_nil
  | leaf key member rest flat ih =>
      obtain ⟨⟨distinct, groups⟩, further⟩ := once
      obtain ⟨here, groups⟩ := List.forall_mem_cons.mp groups
      rw [placements, placements_inside_of_flat flat]
      refine List.forall_mem_cons.mpr ⟨here, ih above (.of ⟨distinct.of_cons, groups⟩ ?_)⟩
      exact fun entry later => further entry (List.mem_cons_of_mem _ later)
  | nested key required validators members rest inside ih =>
      obtain ⟨⟨distinct, groups⟩, further⟩ := once
      obtain ⟨here, groups⟩ := List.forall_mem_cons.mp groups
      have inner := further _ List.mem_cons_self ⟨members⟩ (List.mem_singleton.mpr rfl)
      rw [placements, placementsInside, List.forall_mem_cons, List.forall_mem_append]
      refine ⟨here, inside _ inner, ih above (.of ⟨distinct.of_cons, groups⟩ ?_)⟩
      exact fun entry later => further entry (List.mem_cons_of_mem _ later)

namespace Indexed

theorem groups_of_placed (schema : Indexed φ) :
    ∀ entry ∈ placements none schema.declaration.members,
      (Entries.keys entry.2.validators).Nodup := by
  obtain ⟨⟨members⟩, once⟩ := schema
  exact Declaration.groups_of_placed none once

def empty : Indexed φ where
  declaration := Declaration.empty
  once := by
    simp [throughout_iff, Declaration.empty, levels, levelsInside, EntriesOnce, Entries.keys]

def insert (key : String) (member : Member φ) (groups : (Entries.keys member.validators).Nodup)
    (inside : ∀ inner ∈ member.inner, inner.Throughout EntriesOnce) (schema : Indexed φ) :
    Indexed φ where
  declaration := schema.declaration.insert key member
  once := by
    obtain ⟨declaration, ⟨distinct, known⟩, further⟩ := schema
    refine .of ⟨Entries.nodup_keys_upsert _ _ distinct, ?_⟩ ?_
    · intro entry among
      rcases Entries.mem_of_mem_put among with rfl | present
      · exact groups
      · exact known entry present
    · intro entry among
      rcases Entries.mem_of_mem_put among with rfl | present
      · exact inside
      · exact further entry present

end Indexed

theorem groups_of_writes_validators {value : Option (Value φ)}
    {validators : List (BasicType × List (Function φ))}
    (written : WritesValidators value validators) : (Entries.keys validators).Nodup := by
  have nothing : (Entries.keys ([] : List (BasicType × List (Function φ)))).Nodup := List.nodup_nil
  cases written with
  | object each => exact entries_once_add_validators nothing _
  | _ => exact nothing

theorem groups_of_writes_members {fields : List (String × Value φ)}
    {members : List (String × Member φ)} (written : WritesMembers fields members) :
    ∀ entry ∈ members, (Entries.keys entry.2.validators).Nodup := by
  induction fields generalizing members with
  | nil =>
      cases written
      exact fun _ member => absurd member List.not_mem_nil
  | cons field rest ih =>
      cases written with
      | control owned later => exact ih later
      | data free here later =>
          refine List.forall_mem_cons.mpr ⟨?_, ih later⟩
          cases here with
          | record _ registered => exact groups_of_writes_validators registered
          | nested _ registered => exact groups_of_writes_validators registered
          | _ => exact List.nodup_nil

theorem entries_once_of_writes {value : Value φ} {declaration : Declaration φ}
    (distinct : value.EveryLevel List.Nodup) (written : Writes value declaration) :
    declaration.Throughout EntriesOnce := by
  refine throughout_of_writes (fun fields members distinct inside => ⟨?_, ?_⟩) written distinct
  · rw [keys_of_writes_members inside]
    exact distinct.filter _
  · exact groups_of_writes_members inside

def Indexed.ofValue (raw : Value.Indexed φ) : Except SchemaFault (Indexed φ) :=
  match read : Declaration.ofValue raw.value with
  | .ok declaration => .ok ⟨declaration, entries_once_of_writes raw.distinct (writes_iff.mp read)⟩
  | .error fault => .error fault

theorem indexed_of_value (raw : Value.Indexed φ) :
    (Indexed.ofValue raw).map Indexed.declaration = Declaration.ofValue raw.value := by
  rw [Indexed.ofValue]
  split
  · next read => exact read.symm
  · next read => exact read.symm

end Declaration

end ObjectShape
