import Mathlib.Data.List.Find
import Mathlib.Data.List.Permutation
import ObjectShape.Proofs.Value.Outline

/-!
# Looking up a path

Several chains of keys may spell one path if keys hold dots. A chain without dotted keys takes the
path from all others; if there is none, the first chain on the walk has it. In a value without empty
keys the only chain without dotted keys is that of the path's own segments.
-/

namespace ObjectShape.Value

set_option autoImplicit false

variable {φ : Type}

/-- The chain of at most `depth` keys leads into the value and spells the path. -/
def Spells (depth : Nat) (value : Value φ) (path : String) (chain : List String) : Prop :=
  chain.length ≤ depth ∧ (∃ part, Leads chain value part) ∧ Path.extend none chain = some path

theorem Spells.filled {depth : Nat} {value : Value φ} {path : String} {chain : List String}
    (spells : Spells depth value path chain) : chain ≠ [] := by
  intro empty
  obtain ⟨_, _, spelled⟩ := spells
  rw [empty] at spelled
  exact absurd spelled (by simp [Path.extend])

theorem spells_of_mem_walk {depth : Nat} {value part : Value φ} {path : String}
    {chain : List String} (walked : (chain, part) ∈ walk depth value)
    (spelled : Path.extend none chain = some path) : Spells depth value path chain := by
  obtain ⟨_, short, leads⟩ := (mem_walk_iff depth value chain part).mp walked
  exact ⟨short, ⟨part, leads⟩, spelled⟩

theorem visit_along_path {depth : Nat} {value : Value φ} {step : List String × Value φ}
    (walked : step ∈ walk depth value) (path : String) :
    (visitAlong none true step).path = path ↔ Path.extend none step.1 = some path := by
  obtain ⟨filled, _⟩ := (mem_walk_iff depth value step.1 step.2).mp walked
  obtain ⟨spelled, reached⟩ := Path.exists_extend none filled
  simp [visitAlong, reached]

theorem get_outline_eq_none_iff (depth : Nat) (path : String) (value : Value φ) :
    Entries.get? path (value.outline depth) = none ↔
      ∀ chain, ¬ Spells depth value path chain := by
  rw [get_outline, Option.map_eq_none_iff, chosen_visit_eq_none_iff, visits_eq_map_walk]
  constructor
  · intro absent chain spells
    obtain ⟨part, leads⟩ := spells.2.1
    have walked := (mem_walk_iff depth value chain part).mpr ⟨spells.filled, spells.1, leads⟩
    exact absent _ (List.mem_map_of_mem walked) ((visit_along_path walked path).mpr spells.2.2)
  · intro absent visit visited same
    obtain ⟨⟨chain, part⟩, walked, rfl⟩ := List.mem_map.mp visited
    exact absent chain (spells_of_mem_walk walked ((visit_along_path walked path).mp same))

/-- Without a nested visit to the path, its first visit has it. -/
theorem get_outline_of_dotted {depth : Nat} {path : String} {value : Value φ}
    (dotted : ∀ chain, Spells depth value path chain → Path.isUndotted chain = false) :
    Entries.get? path (value.outline depth) =
      ((walk depth value).find? fun step => Path.extend none step.1 = some path).map Prod.snd := by
  have none_nested : (visits depth none true value).filter
      (fun visit => visit.nested && visit.path == path) = [] := by
    rw [visits_eq_map_walk, List.filter_eq_nil_iff]
    intro visit visited
    obtain ⟨⟨chain, part⟩, walked, rfl⟩ := List.mem_map.mp visited
    intro kept
    obtain ⟨nested, same⟩ := Bool.and_eq_true_iff.mp kept
    have spelled := (visit_along_path walked path).mp (beq_iff_eq.mp same)
    have flag := dotted chain (spells_of_mem_walk walked spelled)
    simp [visitAlong, flag] at nested
  have first : (visits depth none true value).find? (fun visit => visit.path == path) =
      ((walk depth value).find? fun step => Path.extend none step.1 = some path).map
        (visitAlong none true) := by
    rw [visits_eq_map_walk, List.find?_map]
    congr 1
    apply List.find?_congr
    intro step walked
    rw [Bool.eq_iff_iff, decide_eq_true_iff]
    exact beq_iff_eq.trans (visit_along_path walked path)
  rw [get_outline, chosenVisit, none_nested, first, List.getLast?_nil, Option.none_or,
    Option.map_map]
  rfl

theorem nested_of_chosen_visit {path : String} {visits : List (Visit φ)} {visit other : Visit φ}
    (chosen : chosenVisit path visits = some visit) (member : other ∈ visits)
    (nested : other.nested = true) (same : other.path = path) : visit.nested = true := by
  rcases Option.or_eq_some_iff.mp chosen with last | ⟨none, _⟩
  · have kept := List.mem_filter.mp (List.mem_of_getLast? last)
    exact (Bool.and_eq_true_iff.mp kept.2).1
  · have empty := List.getLast?_eq_none_iff.mp none
    have kept : other ∈ visits.filter fun visit => visit.nested && visit.path == path :=
      List.mem_filter.mpr ⟨member, by simp [nested, same]⟩
    rw [empty] at kept
    exact absurd kept List.not_mem_nil

/-- What is found at a path lies on a chain that spells it, and on one without dotted keys if there
is any. -/
theorem spelled_of_get_outline {depth : Nat} {path : String} {value part : Value φ}
    (found : Entries.get? path (value.outline depth) = some part) :
    ∃ chain, Spells depth value path chain ∧ Leads chain value part ∧
      ∀ other, Spells depth value path other → Path.isUndotted other = true →
        Path.isUndotted chain = true := by
  rw [get_outline, Option.map_eq_some_iff] at found
  obtain ⟨visit, chosen, rfl⟩ := found
  obtain ⟨visited, same⟩ := mem_of_chosen_visit chosen
  rw [visits_eq_map_walk] at visited
  obtain ⟨⟨chain, part⟩, walked, rfl⟩ := List.mem_map.mp visited
  have spells := spells_of_mem_walk walked ((visit_along_path walked path).mp same)
  obtain ⟨_, _, leads⟩ := (mem_walk_iff depth value chain part).mp walked
  refine ⟨chain, spells, leads, fun other otherSpells undotted => ?_⟩
  obtain ⟨otherPart, otherLeads⟩ := otherSpells.2.1
  have otherWalked := (mem_walk_iff depth value other otherPart).mpr
    ⟨otherSpells.filled, otherSpells.1, otherLeads⟩
  rw [visits_eq_map_walk] at chosen
  have nested := nested_of_chosen_visit chosen (List.mem_map_of_mem otherWalked)
    (by simp [visitAlong, undotted]) ((visit_along_path otherWalked path).mpr otherSpells.2.2)
  simpa [visitAlong] using nested

def FilledKeys (keys : List String) : Prop :=
  keys.Nodup ∧ ∀ key ∈ keys, key ≠ ""

instance (keys : List String) : Decidable (FilledKeys keys) :=
  inferInstanceAs (Decidable (_ ∧ _))

theorem filled_keys_children {value : Value φ} (filled : FilledKeys (Entries.keys value.fields)) :
    ∀ key ∈ Entries.keys value.children, key ≠ "" := by
  rcases keys_children_cases value with same | indices
  · rw [same]
    exact filled.2
  · exact fun key member => (indices.2 key member).1

theorem filled_of_leads {value part : Value φ} (level : EveryLevel FilledKeys value)
    {chain : List String} (leads : Leads chain value part) : ∀ key ∈ chain, key ≠ "" :=
  forall_mem_of_leads (fun _ here => filled_keys_children here) level leads

/-- Without empty keys a chain without dotted keys spells the path of which it is the segments. -/
theorem eq_segments_of_spells {depth : Nat} {path : String} {value : Value φ}
    (level : EveryLevel FilledKeys value) {chain : List String}
    (spells : Spells depth value path chain) (undotted : Path.isUndotted chain = true) :
    chain = Path.segments path := by
  obtain ⟨_, ⟨part, leads⟩, spelled⟩ := spells
  have filled := filled_of_leads level leads
  have plain : ∀ key ∈ chain, Path.IsPlain key := fun key member =>
    ⟨filled key member, Path.is_undotted_iff.mp undotted key member⟩
  exact (Path.segments_of_extend plain spelled).symm

theorem spells_segments {depth : Nat} {path : String} {value part : Value φ}
    (level : EveryLevel FilledKeys value) (short : Path.depth path ≤ depth)
    (leads : Leads (Path.segments path) value part) :
    Spells depth value path (Path.segments path) :=
  ⟨short, ⟨part, leads⟩, Path.extend_segments (filled_of_leads level leads)⟩

/-- In a value without empty keys, a path whose segments lead to a part within the depth of the
outline is looked up by following them. Any other path is looked up by walking through the value:
the first part whose chain spells the path is found, and nothing if no chain does. -/
theorem get_outline_by_segments (depth : Nat) (path : String) (value : Value φ)
    (level : value.EveryLevel FilledKeys) :
    (∀ part, Path.depth path ≤ depth → descend (Path.segments path) value = some part →
        Entries.get? path (value.outline depth) = some part) ∧
      (depth < Path.depth path ∨ descend (Path.segments path) value = none →
        Entries.get? path (value.outline depth) =
          ((walk depth value).find? fun step => Path.extend none step.1 = some path).map Prod.snd) ∧
      (Entries.get? path (value.outline depth) = none ↔
        ∀ chain part, chain.length ≤ depth → Leads chain value part →
          Path.extend none chain ≠ some path) := by
  have distinct : value.EveryLevel List.Nodup := level.imp fun _ keys => keys.1
  refine ⟨?_, ?_, ?_⟩
  · intro part short reached
    have leads := (descend_eq_some_iff_leads distinct _).mp reached
    have spells := spells_segments level short leads
    cases found : Entries.get? path (value.outline depth) with
    | none => exact absurd spells ((get_outline_eq_none_iff depth path value).mp found _)
    | some other =>
        obtain ⟨chain, chainSpells, chainLeads, undotted⟩ := spelled_of_get_outline found
        have same := eq_segments_of_spells level chainSpells
          (undotted _ spells (Path.is_undotted_segments path))
        rw [same] at chainLeads
        rw [← reached]
        exact ((descend_eq_some_iff_leads distinct _).mpr chainLeads).symm
  · intro unreached
    apply get_outline_of_dotted
    intro chain spells
    rw [Bool.eq_false_iff]
    intro undotted
    have same := eq_segments_of_spells level spells undotted
    obtain ⟨short, ⟨part, leads⟩, _⟩ := spells
    rw [same] at short leads
    rcases unreached with deep | absent
    · exact absurd short (Nat.not_le.mpr deep)
    · rw [(descend_eq_some_iff_leads distinct _).mpr leads] at absent
      exact absurd absent (by simp)
  · rw [get_outline_eq_none_iff]
    constructor
    · exact fun absent chain part short leads spelled => absent chain ⟨short, ⟨part, leads⟩, spelled⟩
    · intro absent chain spells
      obtain ⟨short, ⟨part, leads⟩, spelled⟩ := spells
      exact absent chain part short leads spelled

/-- Both `a.b` and `c.d.e` are spelled twice, and only `a.b` by a chain without dotted keys. -/
def spelledTwice : Value Empty :=
  .object ⟨0, 0⟩ [("a.b", .bigint 1), ("a", .object ⟨1, 1⟩ [("b", .bigint 2)]),
    ("c", .object ⟨2, 2⟩ [("d.e", .bigint 3)]), ("c.d", .object ⟨3, 3⟩ [("e", .bigint 4)])]

theorem spelled_twice_filled : spelledTwice.EveryLevel FilledKeys := by decide

theorem spelled_twice_get_outline :
    spelledTwice.EveryLevel FilledKeys ∧
      Entries.get? "a.b" (spelledTwice.outline 3) = some (.bigint 2) ∧
      Entries.get? "c.d.e" (spelledTwice.outline 3) = some (.bigint 3) := by
  have nested := get_outline_by_segments 3 "a.b" spelledTwice spelled_twice_filled
  have dotted := get_outline_by_segments 3 "c.d.e" spelledTwice spelled_twice_filled
  refine ⟨spelled_twice_filled, nested.1 (.bigint 2) (by decide) (by cbv), ?_⟩
  rw [dotted.2.1 (.inr (by cbv))]
  cbv

end ObjectShape.Value
