import Mathlib.Data.List.Nodup
import ObjectShape.Memo

/-!
# What a memo holds

A memo is filed by address, so two of its entries never have one address. A look-up finds the entry of
the very object it asks for, and an insertion keeps the entries of the objects that are alive, except
that of the inserted object itself.
-/

namespace ObjectShape

set_option autoImplicit false

variable {φ : Type}

namespace Memo

def held (memo : Memo φ) : List (ObjectRef × Handle φ) :=
  memo.entries.map fun entry => (entry.2.source, entry.2.handle)

def sources (memo : Memo φ) : List ObjectRef :=
  memo.entries.map fun entry => entry.2.source

structure Filed (memo : Memo φ) : Prop where
  distinct : (Entries.keys memo.entries).Nodup
  addressed : ∀ entry ∈ memo.entries, entry.1 = entry.2.source.address

theorem filed_empty : ({} : Memo φ).Filed where
  distinct := List.nodup_nil
  addressed _ member := nomatch member

theorem mem_sources_iff {memo : Memo φ} {source : ObjectRef} :
    source ∈ memo.sources ↔ ∃ handle, (source, handle) ∈ memo.held := by
  constructor
  · intro known
    obtain ⟨entry, member, rfl⟩ := List.mem_map.mp known
    exact ⟨entry.2.handle, List.mem_map.mpr ⟨entry, member, rfl⟩⟩
  · rintro ⟨handle, known⟩
    obtain ⟨entry, member, same⟩ := List.mem_map.mp known
    exact List.mem_map.mpr ⟨entry, member, congrArg Prod.fst same⟩

theorem Filed.sources_nodup {memo : Memo φ} (filed : memo.Filed) : memo.sources.Nodup := by
  have addresses : memo.sources.map ObjectRef.address = Entries.keys memo.entries := by
    rw [sources, Entries.keys, List.map_map]
    exact List.map_congr_left fun entry member => (filed.addressed entry member).symm
  exact List.Nodup.of_map ObjectRef.address (addresses ▸ filed.distinct)

theorem Filed.get?_eq_some_iff {memo : Memo φ} (filed : memo.Filed) {source : ObjectRef}
    {handle : Handle φ} : memo.get? source = some handle ↔ (source, handle) ∈ memo.held := by
  constructor
  · intro found
    unfold get? at found
    cases entry : Entries.get? source.address memo.entries with
    | none => simp [entry] at found
    | some kept =>
        simp only [entry, Option.ite_none_right_eq_some, Option.some.injEq] at found
        obtain ⟨rfl, rfl⟩ := found
        exact List.mem_map.mpr ⟨_, Entries.mem_of_get? entry, rfl⟩
  · intro known
    obtain ⟨entry, member, same⟩ := List.mem_map.mp known
    obtain ⟨rfl, rfl⟩ := Prod.mk.inj same
    have member : (entry.2.source.address, entry.2) ∈ memo.entries :=
      filed.addressed entry member ▸ member
    have found := (Entries.get?_eq_some_iff_mem filed.distinct).mpr member
    simp [get?, found]

theorem Filed.purge {memo : Memo φ} (filed : memo.Filed) (alive : List ObjectRef) :
    (memo.purge alive).Filed where
  distinct := filed.distinct.sublist (List.filter_sublist.map _)
  addressed entry member := filed.addressed entry (List.mem_filter.mp member).1

theorem mem_held_of_purge {memo : Memo φ} {alive : List ObjectRef} {source : ObjectRef}
    {handle : Handle φ} :
    (source, handle) ∈ (memo.purge alive).held ↔ source ∈ alive ∧ (source, handle) ∈ memo.held := by
  simp only [held, Memo.purge, List.mem_map, List.mem_filter, List.contains_iff_mem]
  constructor
  · rintro ⟨entry, ⟨member, live⟩, same⟩
    obtain ⟨rfl, rfl⟩ := Prod.mk.inj same
    exact ⟨live, entry, member, rfl⟩
  · rintro ⟨live, entry, member, same⟩
    obtain ⟨rfl, rfl⟩ := Prod.mk.inj same
    exact ⟨entry, ⟨member, live⟩, rfl⟩

theorem Filed.insert {memo : Memo φ} (filed : memo.Filed) (alive : List ObjectRef)
    (source : ObjectRef) (handle : Handle φ) : (memo.insert alive source handle).Filed := by
  have kept := filed.purge alive
  refine ⟨Entries.nodup_keys_upsert _ _ kept.distinct, ?_⟩
  intro entry member
  rcases Entries.mem_of_mem_put member with rfl | old
  · rfl
  · exact kept.addressed entry old

/-- Objects that are alive have addresses of their own, so the insertion of one takes nothing from
another. -/
theorem Filed.mem_held_of_insert {memo : Memo φ} (filed : memo.Filed) {alive : List ObjectRef}
    {source : ObjectRef} (apart : ∀ other ∈ alive, other.address = source.address → other = source)
    {handle kept : Handle φ} {other : ObjectRef} :
    (other, kept) ∈ (memo.insert alive source handle).held ↔
      if other = source then kept = handle else other ∈ alive ∧ (other, kept) ∈ memo.held := by
  rw [← (filed.insert alive source handle).get?_eq_some_iff, get?, Memo.insert, Entries.get?_put]
  by_cases same : other = source
  · subst same
    simp [eq_comm]
  · have different : ¬ source = other := fun equal => same equal.symm
    rw [if_neg same]
    by_cases address : source.address = other.address
    · have dead : other ∉ alive := fun live => same (apart other live address.symm)
      simp [address, different, dead]
    · rw [if_neg address, ← mem_held_of_purge, ← (filed.purge alive).get?_eq_some_iff, get?]

def compileUnknown (policy : EmptyPolicy) (alive : List ObjectRef) (serial : Nat)
    (source : ObjectRef) (value : Value φ) :
    ExceptT SchemaFault (StateM (Memo φ)) (Handle φ) := do
  let shape ← ExceptT.mk (pure (compileObject policy value))
  let handle : Handle φ := { serial, shape }
  modify (Memo.insert alive source handle)
  return handle

/-- Compilation as the steps a compiler takes on the memo it shares. What a step has done to the
memo stays done when a later one fails. -/
def compileInSteps (policy : EmptyPolicy) (alive : List ObjectRef) (serial : Nat)
    (value : Value φ) : ExceptT SchemaFault (StateM (Memo φ)) (Handle φ) :=
  match value with
  | .schematic handle => return handle
  | .object source _ => do
      match (← get).get? source with
      | some handle => return handle
      | none => compileUnknown policy alive serial source value
  | _ => throw .invalidSchema

/-- No step before the insertion touches the memo, and no step after it fails. -/
theorem compile_in_steps (policy : EmptyPolicy) (alive : List ObjectRef) (serial : Nat)
    (value : Value φ) (memo : Memo φ) :
    (compileInSteps policy alive serial value).run.run memo =
      match compileWith policy alive serial value (some memo) with
      | .ok (handle, after) => (.ok handle, after.getD memo)
      | .error fault => (.error fault, memo) := by
  cases value with
  | object source fields =>
      have looked : (compileInSteps policy alive serial (.object source fields)).run.run memo =
          (match memo.get? source with
            | some handle => pure handle
            | none => compileUnknown policy alive serial source (.object source fields)).run.run
              memo := rfl
      rw [looked]
      cases found : memo.get? source with
      | some handle =>
          simp only [compileWith, Option.bind_some, found]
          rfl
      | none =>
          simp only [compileWith, Option.bind_some, found, compileUnknown]
          cases compileObject policy (.object source fields) with
          | error fault => rfl
          | ok shape => rfl
  | _ => rfl

end Memo

end ObjectShape
