import ObjectShape.Proofs.Path.Chains
import ObjectShape.Proofs.Shape.WellFormed
import ObjectShape.Proofs.Value.Lookup

/-!
# How deep a value is looked into

A shape looks into a value as deep as its longest key has segments, while the walk counts the levels
of the value. Every level adds at least one segment to a path, an empty key at the very top alone
adds none: what lies below it is spelled as if that key were not there. So looking deeper finds the
same parts at the keys of the shape, unless the value itself has a field with the empty key.
-/

namespace ObjectShape

set_option autoImplicit false

variable {φ : Type}

namespace Value

/-- A walk goes on where a shallower one stops, and is the same up to there. -/
theorem walk_eq_filter {depth deeper : Nat} (bound : depth ≤ deeper) (value : Value φ) :
    walk depth value = (walk deeper value).filter fun step => step.1.length ≤ depth := by
  induction depth generalizing deeper value with
  | zero =>
      symm
      rw [walk, List.filter_eq_nil_iff]
      intro step walked
      have filled := ((mem_walk_iff deeper value step.1 step.2).mp walked).1
      simpa using filled
  | succ depth ih =>
      obtain ⟨further, rfl⟩ : ∃ further, deeper = further + 1 := ⟨deeper - 1, by omega⟩
      have within : depth ≤ further := by omega
      rw [walk, walk, List.filter_flatMap]
      congr 1
      funext child
      rw [ih within child.2, List.filter_append, List.filter_map]
      simp [Function.comp_def]

def stepsTo (depth : Nat) (path : String) (value : Value φ) : List (List String × Value φ) :=
  (walk depth value).filter fun step => Path.extend none step.1 = some path

/-- What is found at a path depends on the steps to the path only. -/
theorem get_outline_eq_of_steps {depth deeper : Nat} {path : String} {value : Value φ}
    (same : stepsTo depth path value = stepsTo deeper path value) :
    Entries.get? path (value.outline depth) = Entries.get? path (value.outline deeper) := by
  have kept : ∀ bound, (visits bound none true value).filter (fun visit => visit.path == path) =
      (stepsTo bound path value).map (visitAlong none true) := by
    intro bound
    rw [visits_eq_map_walk, List.filter_map, stepsTo]
    congr 1
    apply List.filter_congr
    intro step walked
    rw [Bool.eq_iff_iff, decide_eq_true_iff]
    exact beq_iff_eq.trans (visit_along_path walked path)
  have chosen : ∀ visits : List (Visit φ),
      chosenVisit path visits = chosenVisit path (visits.filter fun visit => visit.path == path) := by
    intro visits
    rw [chosenVisit, chosenVisit, List.filter_filter, List.find?_filter]
    simp only [Bool.and_assoc, Bool.and_self, and_self, Bool.decide_eq_true]
  rw [get_outline, get_outline, chosen (visits depth none true value), kept,
    chosen (visits deeper none true value), kept, same]

/-- Looking deeper than a path has segments adds no steps to the path, but for those that start with
an empty key. -/
theorem steps_to_of_deeper {depth deeper : Nat} {path : String} {value : Value φ}
    (short : Path.depth path ≤ depth) (bound : depth ≤ deeper) :
    stepsTo depth path value = stepsTo deeper path value ∨
      ∃ rest part, Leads ("" :: rest) value part ∧ Path.extend none ("" :: rest) = some path ∧
        depth < ("" :: rest).length ∧ ("" :: rest).length ≤ deeper := by
  by_cases long : ∃ step ∈ stepsTo deeper path value, depth < step.1.length
  -- A chain may be longer than its path has segments only if it starts with an empty key.
  · obtain ⟨⟨chain, part⟩, listed, long⟩ := long
    obtain ⟨walked, spelled⟩ := List.mem_filter.mp listed
    have spelled := of_decide_eq_true spelled
    obtain ⟨filled, within, leads⟩ := (mem_walk_iff deeper value chain part).mp walked
    obtain ⟨key, rest, rfl⟩ := List.exists_cons_of_ne_nil filled
    have absorbed : key = "" := by
      by_contra other
      have bounded := Path.length_le_depth other spelled
      exact absurd (Nat.lt_of_lt_of_le long bounded) (Nat.not_lt.mpr short)
    subst absorbed
    exact .inr ⟨rest, part, leads, spelled, long, within⟩
  · left
    push Not at long
    rw [stepsTo, walk_eq_filter bound, List.filter_filter, stepsTo]
    apply List.filter_congr
    intro step walked
    by_cases spelled : Path.extend none step.1 = some path
    · have listed : step ∈ stepsTo deeper path value :=
        List.mem_filter.mpr ⟨walked, decide_eq_true spelled⟩
      simp [spelled, long step listed]
    · simp [spelled]

end Value

namespace Shape

theorem depth_of_key_of_well_formed {shape : Shape φ} (formed : shape.WellFormed) {key : String}
    (listed : key ∈ shape.keys) : Path.depth key ≤ shape.depth := by
  rcases formed with rfl | assembled
  · exact absurd listed List.not_mem_nil
  · exact assembled.bounded key listed

/-- A value that has the key `y` twice, once in front of an empty key. -/
def inFrontOfEmpty : Value Empty :=
  .object ⟨0, 0⟩ [("y", .object ⟨1, 1⟩ [("", .bigint 1)]), ("y.", .bigint 2)]

/-- At a key of a compiled shape, or of a shape nested in it, looking deeper than the shape does takes
the same steps and finds the same part or nothing, just as before; unless the value has a field with
the empty key, and a chain of keys that starts there and is too long for the shape spells the key. -/
theorem deeper_outline_at_key (policy : EmptyPolicy) (declaration : Declaration φ)
    (shape inner : Shape φ) (value : Value φ) (key : String) (deeper : Nat)
    (compiled : declaration.compile policy = .ok shape)
    (reached : Relation.ReflTransGen Nests shape inner) (listed : key ∈ inner.keys)
    (bound : inner.depth ≤ deeper) :
    (Value.stepsTo inner.depth key value = Value.stepsTo deeper key value ∧
        Entries.get? key (value.outline inner.depth) = Entries.get? key (value.outline deeper)) ∨
      ∃ rest part, Value.Leads ("" :: rest) value part ∧
        Path.extend none ("" :: rest) = some key ∧
        inner.depth < ("" :: rest).length ∧ ("" :: rest).length ≤ deeper := by
  obtain ⟨_, _, _, _, built⟩ := built_of_reached compiled reached
  have short := depth_of_key_of_well_formed (well_formed_of_build built) listed
  rcases Value.steps_to_of_deeper short bound with same | absorbed
  · exact .inl ⟨same, Value.get_outline_eq_of_steps same⟩
  · exact .inr absorbed

theorem repeated_part_deeper_outline :
    repeated.compile .disable = .ok repeatedShape ∧
      Relation.ReflTransGen Nests repeatedShape repeatedPart ∧ "y" ∈ repeatedPart.keys ∧
      repeatedPart.depth ≤ 3 ∧
      Entries.get? "y" (inFrontOfEmpty.outline repeatedPart.depth) =
        Entries.get? "y" (inFrontOfEmpty.outline 3) := by
  have compiled : repeated.compile .disable = .ok repeatedShape := by cbv
  have nests : repeatedShape.Nests repeatedPart := ⟨_, List.mem_cons_self, by simp⟩
  have listed : "y" ∈ repeatedPart.keys := List.mem_cons_self
  have bound : repeatedPart.depth ≤ 3 := by decide
  refine ⟨compiled, .single nests, listed, bound, ?_⟩
  rcases deeper_outline_at_key .disable repeated repeatedShape repeatedPart inFrontOfEmpty "y" 3
    compiled (.single nests) listed bound with same | absorbed
  · exact same.2
  · obtain ⟨_, _, ⟨_, member, _⟩, _⟩ := absorbed
    exact absurd member (by simp [inFrontOfEmpty, Value.children])

def lone : Declaration Empty :=
  ⟨[("a", .single (.named .bigint))]⟩

def loneShape : Shape Empty :=
  { properties := [("a", ⟨"a", true, [.named .bigint], []⟩)]
    keys := ["a"]
    enabled := true
    depth := 1 }

def behindEmpty : Value Empty :=
  .object ⟨0, 0⟩ [("", .object ⟨1, 1⟩ [("a", .bigint 1)])]

theorem behind_empty_outlines_differ :
    lone.compile .reject = .ok loneShape ∧ "a" ∈ loneShape.keys ∧ loneShape.depth ≤ 2 ∧
      Entries.get? "a" (behindEmpty.outline loneShape.depth) = none ∧
      Entries.get? "a" (behindEmpty.outline 2) = some (.bigint 1) := by
  refine ⟨?_, List.mem_cons_self, by decide, ?_, ?_⟩ <;> cbv

end Shape

end ObjectShape
