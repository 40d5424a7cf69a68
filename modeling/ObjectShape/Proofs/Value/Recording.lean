import Mathlib.Data.List.Nodup
import ObjectShape.Proofs.Value.Outline

/-!
# Every part is recorded once

The walk meets everything below a part before the part, and what lies under an earlier key before
what lies under a later one; `Precedes` is that order. In a value whose keys are plain no two chains
have one path, so nothing is ever written over: the outline has an entry for each part that is not
too deep, no other, and in the order of the walk.
-/

namespace ObjectShape.Value

set_option autoImplicit false

variable {φ : Type}

/-- The walk through the value comes to the end of the one chain before it comes to the end of the
other. -/
inductive Precedes : Value φ → List String → List String → Prop where
  /-- What is below a part comes before the part. -/
  | under (value : Value φ) (key : String) (rest : List String) : Precedes value (key :: rest) []
  /-- What is under an earlier key comes before what is under a later one. -/
  | beside {value : Value φ} {key other : String} (rest later : List String)
      (earlier : [key, other].Sublist (Entries.keys value.children)) :
      Precedes value (key :: rest) (other :: later)
  | inside {value child : Value φ} {key : String} {chain other : List String}
      (member : (key, child) ∈ value.children) (ordered : Precedes child chain other) :
      Precedes value (key :: chain) (key :: other)

theorem not_sublist_swapped {key other : String} {keys : List String} (distinct : keys.Nodup)
    (earlier : [key, other].Sublist keys) : ¬ [other, key].Sublist keys := by
  induction keys with
  | nil => simp at earlier
  | cons first rest ih =>
      obtain ⟨fresh, distinct⟩ := List.nodup_cons.mp distinct
      intro later
      cases earlier with
      | cons _ earlier =>
          cases later with
          | cons _ later => exact ih distinct earlier later
          | cons_cons _ later => exact fresh (earlier.subset (by simp))
      | cons_cons _ earlier =>
          cases later with
          | cons _ later => exact fresh (later.subset (by simp))
          | cons_cons _ later => exact fresh (later.subset (by simp))

/-- Two items of a list stand in it in one order or the other. -/
theorem sublist_of_mem {chain other : List String} {chains : List (List String)}
    (member : chain ∈ chains) (otherMember : other ∈ chains) (different : chain ≠ other) :
    [chain, other].Sublist chains ∨ [other, chain].Sublist chains := by
  induction chains with
  | nil => simp at member
  | cons first rest ih =>
      rcases List.mem_cons.mp member with rfl | later
      · have later := List.mem_of_ne_of_mem different.symm otherMember
        exact .inl ((List.singleton_sublist.mpr later).cons_cons _)
      · rcases List.mem_cons.mp otherMember with rfl | otherLater
        · exact .inr ((List.singleton_sublist.mpr later).cons_cons _)
        · exact (ih later otherLater).imp (·.cons _) (·.cons _)

theorem Precedes.asymm {value : Value φ} (level : EveryLevel List.Nodup value)
    {chain other : List String} (ordered : Precedes value chain other) :
    ¬ Precedes value other chain := by
  induction ordered with
  | under => exact fun swapped => nomatch swapped
  | beside rest later earlier =>
      obtain ⟨here, _⟩ := level
      have distinct := distinct_keys_children here
      intro swapped
      cases swapped with
      | beside _ _ earlier' => exact not_sublist_swapped distinct earlier earlier'
      | inside => exact not_sublist_swapped distinct earlier earlier
  | @inside value child key chain other member ordered ih =>
      obtain ⟨here, parts⟩ := level
      have distinct := distinct_keys_children here
      intro swapped
      cases swapped with
      | beside _ _ earlier => exact not_sublist_swapped distinct earlier earlier
      | @inside _ child' _ _ _ member' swapped =>
          have found := (Entries.get?_eq_some_iff_mem distinct).mpr member
          rw [(Entries.get?_eq_some_iff_mem distinct).mpr member'] at found
          obtain rfl := Option.some.inj found
          exact ih (parts _ member) swapped

def stepsUnder (depth : Nat) (child : String × Value φ) : List (List String × Value φ) :=
  (walk depth child.2).map (fun step => (child.1 :: step.1, step.2)) ++ [([child.1], child.2)]

theorem key_of_step_under {depth : Nat} {child : String × Value φ} {step : List String × Value φ}
    (walked : step ∈ stepsUnder depth child) : ∃ rest, step.1 = child.1 :: rest := by
  rcases List.mem_append.mp walked with below | here
  · obtain ⟨deeper, _, rfl⟩ := List.mem_map.mp below
    exact ⟨deeper.1, rfl⟩
  · obtain rfl := List.mem_singleton.mp here
    exact ⟨[], rfl⟩

/-- The walk goes through the chains of a value in their order. -/
theorem walk_ordered (depth : Nat) (value : Value φ) :
    ((walk depth value).map Prod.fst).Pairwise (Precedes value) := by
  rw [List.pairwise_map]
  induction depth generalizing value with
  | zero => exact .nil
  | succ depth ih =>
      rw [walk, List.pairwise_flatMap]
      constructor
      · intro child member
        rw [List.pairwise_append, List.pairwise_map]
        refine ⟨(ih child.2).imp fun ordered => .inside member ordered, List.pairwise_singleton _ _, ?_⟩
        intro step walked last same
        obtain ⟨⟨chain, part⟩, below, rfl⟩ := List.mem_map.mp walked
        obtain rfl := List.mem_singleton.mp same
        obtain ⟨filled, _⟩ := (mem_walk_iff depth child.2 chain part).mp below
        obtain ⟨key, rest, rfl⟩ := List.exists_cons_of_ne_nil filled
        exact .inside member (.under child.2 key rest)
      · rw [List.pairwise_iff_forall_sublist]
        intro child sibling earlier step walked other walkedLater
        obtain ⟨rest, stepKey⟩ := key_of_step_under walked
        obtain ⟨later, otherKey⟩ := key_of_step_under walkedLater
        rw [stepKey, otherKey]
        exact .beside rest later (earlier.map Prod.fst)

/-- Visits to distinct paths are recorded one after the other. -/
theorem foldl_record_of_distinct {visits : List (Visit φ)}
    (distinct : (visits.map Visit.path).Nodup) :
    visits.foldl record [] = visits.map fun visit => (visit.path, visit.part) := by
  induction visits using List.reverseRecOn with
  | nil => rfl
  | append_singleton earlier visit ih =>
      rw [List.map_append, List.nodup_append] at distinct
      obtain ⟨distinct, _, apart⟩ := distinct
      have fresh : visit.path ∉ Entries.keys (earlier.map fun visit => (visit.path, visit.part)) := by
        intro taken
        rw [Entries.keys, List.map_map] at taken
        exact apart _ taken _ (by simp) rfl
      rw [List.foldl_append, List.foldl_cons, List.foldl_nil, ih distinct, record]
      cases visit.nested with
      | true => simp [Entries.put, Entries.upsert_of_not_mem _ _ fresh]
      | false => simp [Entries.putNew, Entries.upsert_of_not_mem _ _ fresh]

/-- The chains of a value whose keys are plain have paths of their own. -/
theorem path_injective {value part other : Value φ} (plain : EveryLevel Path.PlainKeys value)
    {left right : List String} (leftLeads : Leads left value part)
    (rightLeads : Leads right value other) {path : String}
    (leftSpells : Path.extend none left = some path)
    (rightSpells : Path.extend none right = some path) : left = right := by
  rw [← Path.segments_of_extend (plain_of_leads plain leftLeads) leftSpells,
    ← Path.segments_of_extend (plain_of_leads plain rightLeads) rightSpells]

/-- The outline lists the parts that the chains lead to, one after the other. -/
structure Records (outline : List (String × Value φ)) (depth : Nat) (value : Value φ)
    (chains : List (List String)) : Prop where
  /-- The chains are those of all parts that are not too deep. -/
  parts : ∀ chain, chain ∈ chains ↔
    chain ≠ [] ∧ chain.length ≤ depth ∧ (descend chain value).isSome = true
  once : chains.Nodup
  /-- One entry for each chain, and no other: the path of its keys, and the part it leads to. -/
  entries : List.Forall₂
    (fun chain entry => Path.extend none chain = some entry.1 ∧ descend chain value = some entry.2)
    chains outline
  paths : (Entries.keys outline).Nodup
  /-- Two chains stand in the order in which the walk comes to their ends. -/
  order : ∀ chain ∈ chains, ∀ other ∈ chains,
    [chain, other].Sublist chains ↔ Precedes value chain other

theorem mem_chains_iff {depth : Nat} {value : Value φ} {chain : List String} :
    chain ∈ (walk depth value).map Prod.fst ↔
      chain ≠ [] ∧ chain.length ≤ depth ∧ ∃ part, Leads chain value part := by
  rw [List.mem_map]
  constructor
  · intro walked
    obtain ⟨⟨_, part⟩, walked, rfl⟩ := walked
    obtain ⟨filled, short, leads⟩ := (mem_walk_iff _ _ _ _).mp walked
    exact ⟨filled, short, part, leads⟩
  · intro reached
    obtain ⟨filled, short, part, leads⟩ := reached
    exact ⟨(chain, part), (mem_walk_iff _ _ _ _).mpr ⟨filled, short, leads⟩, rfl⟩

theorem chains_nodup (depth : Nat) {value : Value φ} (level : EveryLevel List.Nodup value) :
    ((walk depth value).map Prod.fst).Nodup := by
  apply (walk_ordered depth value).imp
  intro chain other ordered same
  subst same
  exact ordered.asymm level ordered

theorem visit_paths_nodup (depth : Nat) {value : Value φ}
    (plain : EveryLevel Path.PlainKeys value) :
    ((visits depth none true value).map Visit.path).Nodup := by
  have distinct := chains_nodup depth (distinct_of_plain plain)
  have paths : ((visits depth none true value).map Visit.path) =
      ((walk depth value).map Prod.fst).map fun chain => (Path.extend none chain).getD "" := by
    rw [visits_eq_map_walk, List.map_map, List.map_map]
    rfl
  rw [paths]
  apply distinct.map_on
  intro left leftWalked right rightWalked same
  obtain ⟨leftFilled, _, _, leftLeads⟩ := mem_chains_iff.mp leftWalked
  obtain ⟨rightFilled, _, _, rightLeads⟩ := mem_chains_iff.mp rightWalked
  obtain ⟨path, leftSpells⟩ := Path.exists_extend none leftFilled
  obtain ⟨other, rightSpells⟩ := Path.exists_extend none rightFilled
  simp only [leftSpells, rightSpells, Option.getD_some] at same
  exact path_injective plain leftLeads rightLeads leftSpells (same ▸ rightSpells)

theorem outline_of_plain (depth : Nat) {value : Value φ}
    (plain : EveryLevel Path.PlainKeys value) :
    value.outline depth = (visits depth none true value).map fun visit => (visit.path, visit.part) :=
  foldl_record_of_distinct (visit_paths_nodup depth plain)

/-- The outline of a value whose keys are plain has exactly one entry for each of its parts down to
the depth, under the path of the keys that lead there, everything below a part before the part and
what is under an earlier key before what is under a later one. -/
theorem outline_records_every_part (depth : Nat) (value : Value φ)
    (plain : value.EveryLevel Path.PlainKeys) :
    Records (value.outline depth) depth value ((walk depth value).map Prod.fst) := by
  have level := distinct_of_plain plain
  have once := chains_nodup depth level
  have ordered := walk_ordered depth value
  have visited := visit_paths_nodup depth plain
  constructor
  case parts =>
    intro chain
    rw [mem_chains_iff, Option.isSome_iff_exists]
    simp only [descend_eq_some_iff_leads level]
  case once => exact once
  case entries =>
    rw [outline_of_plain depth plain, visits_eq_map_walk, List.map_map, List.forall₂_map_left_iff,
      List.forall₂_map_right_iff, List.forall₂_same]
    intro step walked
    obtain ⟨filled, _, leads⟩ := (mem_walk_iff depth value step.1 step.2).mp walked
    obtain ⟨path, spells⟩ := Path.exists_extend none filled
    exact ⟨by simp [visitAlong, spells], (descend_eq_some_iff_leads level _).mpr leads⟩
  case paths =>
    rw [outline_of_plain depth plain, Entries.keys, List.map_map]
    exact visited
  case order =>
    intro chain member other otherMember
    constructor
    · exact List.pairwise_iff_forall_sublist.mp ordered
    · intro first
      have different : chain ≠ other := by
        intro same
        subst same
        exact first.asymm level first
      apply (sublist_of_mem member otherMember different).resolve_right
      intro swapped
      exact first.asymm level (List.pairwise_iff_forall_sublist.mp ordered swapped)

/-- An array beside a key that looks like an index, and an instance with a part below the depth. -/
def branched : Value Empty :=
  .object ⟨0, 0⟩
    [("list", .array [.bigint 1, .array []]),
      ("1", .bigint 2),
      ("made", .instanceOf (.root 0 "Made") [("1", .array [.bigint 3]), ("0", .bigint 4)])]

theorem branched_plain : branched.EveryLevel Path.PlainKeys := by decide

theorem branched_records_every_part :
    branched.EveryLevel Path.PlainKeys ∧
      Records (branched.outline 2) 2 branched
        [["list", "0"], ["list", "1"], ["list"], ["1"], ["made", "1"], ["made", "0"], ["made"]] := by
  have chains : (walk 2 branched).map Prod.fst =
      [["list", "0"], ["list", "1"], ["list"], ["1"], ["made", "1"], ["made", "0"], ["made"]] := by
    rfl
  rw [← chains]
  exact ⟨branched_plain, outline_records_every_part 2 branched branched_plain⟩

end ObjectShape.Value
