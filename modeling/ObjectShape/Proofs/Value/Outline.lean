import Mathlib.Data.List.Induction
import ObjectShape.Proofs.Path.Plain
import ObjectShape.Proofs.Value.Levels
import ObjectShape.Value.Outline

/-!
# What an outline holds

The walk through a value visits exactly the parts that a chain of keys leads to, and a path is looked
up as its last nested visit, or else its first visit. In a value whose keys are plain the path of a
chain is spelled by no other chain, so looking the path up is the same as following the chain.
-/

namespace ObjectShape.Value

set_option autoImplicit false

variable {φ : Type}

/-- The part directly under a key: a field, or an array item by its decimal index. -/
def child? (key : String) (value : Value φ) : Option (Value φ) :=
  Entries.get? key value.children

def childAt (key : String) (value : Value φ) : Value φ :=
  (value.child? key).getD .undefined

def descend : List String → Value φ → Option (Value φ)
  | [], value => some value
  | key :: rest, value => (value.child? key).bind (descend rest)

theorem descend_append (front back : List String) (value : Value φ) :
    descend (front ++ back) value = (descend front value).bind (descend back) := by
  induction front generalizing value with
  | nil => rfl
  | cons key front ih =>
      cases found : value.child? key with
      | none => simp [descend, found]
      | some part => simpa [descend, found] using ih part

def Leads : List String → Value φ → Value φ → Prop
  | [], value, part => value = part
  | key :: rest, value, part => ∃ child, (key, child) ∈ value.children ∧ Leads rest child part

/-- The parts of a value down to the given depth, each with the chain of keys that leads to it: keys
in their order, and everything below a part before the part itself. -/
def walk : Nat → Value φ → List (List String × Value φ)
  | 0, _ => []
  | depth + 1, value =>
      value.children.flatMap fun child =>
        (walk depth child.2).map (fun step => (child.1 :: step.1, step.2)) ++ [([child.1], child.2)]

theorem mem_walk_iff (depth : Nat) (value : Value φ) (chain : List String) (part : Value φ) :
    (chain, part) ∈ walk depth value ↔
      chain ≠ [] ∧ chain.length ≤ depth ∧ Leads chain value part := by
  induction depth generalizing value chain with
  | zero =>
      simp only [walk, List.not_mem_nil, false_iff, not_and]
      intro filled short
      exact absurd (List.length_eq_zero_iff.mp (Nat.le_zero.mp short)) filled
  | succ depth ih =>
      simp only [walk, List.mem_flatMap, List.mem_append, List.mem_map, List.mem_singleton]
      constructor
      · intro walked
        obtain ⟨⟨key, child⟩, member, ⟨⟨rest, deeper⟩, below, same⟩ | same⟩ := walked
        · obtain ⟨rfl, rfl⟩ := Prod.mk.inj same
          obtain ⟨_, short, leads⟩ := (ih child rest).mp below
          exact ⟨by simp, by simpa using short, child, member, leads⟩
        · obtain ⟨rfl, rfl⟩ := Prod.mk.inj same
          exact ⟨by simp, by simp, part, member, rfl⟩
      · intro walked
        obtain ⟨filled, short, leads⟩ := walked
        cases chain with
        | nil => exact absurd rfl filled
        | cons key rest =>
            obtain ⟨child, member, leads⟩ := leads
            refine ⟨(key, child), member, ?_⟩
            cases rest with
            | nil =>
                obtain rfl : child = part := leads
                exact .inr rfl
            | cons next later =>
                have below := (ih child (next :: later)).mpr ⟨by simp, by simpa using short, leads⟩
                exact .inl ⟨_, below, rfl⟩

def visitAlong (above : Option String) (nested : Bool) (step : List String × Value φ) : Visit φ where
  path := (Path.extend above step.1).getD ""
  nested := nested && Path.isUndotted step.1
  part := step.2

theorem visits_eq_map_walk (depth : Nat) (above : Option String) (nested : Bool) (value : Value φ) :
    visits depth above nested value = (walk depth value).map (visitAlong above nested) := by
  induction depth generalizing above nested value with
  | zero => rfl
  | succ depth ih =>
      simp only [visits, walk, List.map_flatMap]
      congr 1
      funext child
      rw [ih, List.map_append, List.map_map]
      congr 1
      · congr 1
        funext step
        simp [visitAlong, Path.extend, Path.isUndotted, Bool.and_assoc]
      · simp [visitAlong, Path.extend, Path.isUndotted]

/-- The walk visits a part once for each chain of keys that leads to it and is short enough. -/
theorem mem_visits_iff (depth : Nat) (above : Option String) (nested : Bool) (value : Value φ)
    (visit : Visit φ) :
    visit ∈ visits depth above nested value ↔
      ∃ chain, chain ≠ [] ∧ chain.length ≤ depth ∧ Leads chain value visit.part ∧
        Path.extend above chain = some visit.path ∧
        visit.nested = (nested && Path.isUndotted chain) := by
  rw [visits_eq_map_walk, List.mem_map]
  constructor
  · intro visited
    obtain ⟨⟨chain, part⟩, walked, rfl⟩ := visited
    obtain ⟨filled, short, leads⟩ := (mem_walk_iff depth value chain part).mp walked
    obtain ⟨path, spelled⟩ := Path.exists_extend above filled
    exact ⟨chain, filled, short, leads, by simp [visitAlong, spelled], rfl⟩
  · intro visited
    obtain ⟨chain, filled, short, leads, spelled, nested⟩ := visited
    refine ⟨(chain, visit.part), (mem_walk_iff _ _ _ _).mpr ⟨filled, short, leads⟩, ?_⟩
    simp [visitAlong, spelled, ← nested]

/-- The visit that a path stands for: its last nested one, or else its first. -/
def chosenVisit (path : String) (visits : List (Visit φ)) : Option (Visit φ) :=
  (visits.filter fun visit => visit.nested && visit.path == path).getLast?.or
    (visits.find? fun visit => visit.path == path)

theorem chosen_visit_eq_none_iff {path : String} {visits : List (Visit φ)} :
    chosenVisit path visits = none ↔ ∀ visit ∈ visits, visit.path ≠ path := by
  simp only [chosenVisit, Option.or_eq_none_iff, List.getLast?_eq_none_iff,
    List.filter_eq_nil_iff, List.find?_eq_none, Bool.and_eq_true, beq_iff_eq]
  exact ⟨fun absent => absent.2, fun absent =>
    ⟨fun visit member chosen => absent visit member chosen.2, absent⟩⟩

theorem mem_of_chosen_visit {path : String} {visits : List (Visit φ)} {visit : Visit φ}
    (chosen : chosenVisit path visits = some visit) : visit ∈ visits ∧ visit.path = path := by
  rcases Option.or_eq_some_iff.mp chosen with last | ⟨_, first⟩
  · have kept := List.mem_filter.mp (List.mem_of_getLast? last)
    exact ⟨kept.1, by simpa using (Bool.and_eq_true_iff.mp kept.2).2⟩
  · exact ⟨List.mem_of_find?_eq_some first, by simpa using List.find?_some first⟩

theorem chosen_visit_append (path : String) (earlier : List (Visit φ)) (visit : Visit φ) :
    chosenVisit path (earlier ++ [visit]) =
      if visit.path = path then
        if visit.nested then some visit else (chosenVisit path earlier).or (some visit)
      else chosenVisit path earlier := by
  unfold chosenVisit
  rw [List.filter_append, List.find?_append]
  by_cases same : visit.path = path
  · cases nested : visit.nested with
    | true => simp [same, nested]
    | false =>
        have kept : [visit].filter (fun visit => visit.nested && visit.path == path) = [] := by
          simp [nested]
        rw [kept, List.append_nil, ← Option.or_assoc]
        simp [same]
  · simp [same]

theorem get_foldl_record (path : String) (visits : List (Visit φ)) :
    Entries.get? path (visits.foldl record []) = (chosenVisit path visits).map Visit.part := by
  induction visits using List.reverseRecOn with
  | nil => rfl
  | append_singleton earlier visit ih =>
      rw [List.foldl_append, List.foldl_cons, List.foldl_nil, chosen_visit_append, record]
      by_cases same : visit.path = path
      · cases visit.nested with
        | true => simp [Entries.get?_put, same]
        | false => cases chosen : chosenVisit path earlier <;> simp_all [Entries.get?_put_new]
      · cases visit.nested <;> simp [Entries.get?_put, Entries.get?_put_new, same, ih]

theorem get_outline (depth : Nat) (path : String) (value : Value φ) :
    Entries.get? path (value.outline depth) =
      (chosenVisit path (visits depth none true value)).map Visit.part :=
  get_foldl_record path _

theorem plain_index (index : Nat) : Path.IsPlain (toString index) := by
  change Path.IsPlain index.repr
  refine ⟨Nat.repr_ne_empty, ?_⟩
  have absent : Path.separator ∉ Nat.toDigits 10 index := by
    intro member
    have digit := Nat.isDigit_of_mem_toDigits (by decide) (by decide) member
    exact absurd digit (by decide)
  simpa [Path.isDotted, Nat.toList_repr] using absent

theorem index_injective {left right : Nat} (same : toString left = toString right) :
    left = right := by
  have digits : Nat.toDigits 10 left = Nat.toDigits 10 right := by
    rw [← Nat.toList_repr, ← Nat.toList_repr]
    exact congrArg String.toList same
  rw [← Nat.ofDigitChars_toDigits (b := 10) (n := left) (by decide) (by decide), digits,
    Nat.ofDigitChars_toDigits (by decide) (by decide)]

/-- The keys of the parts are those of the fields, or the indices of an array. -/
theorem keys_children_cases (value : Value φ) :
    Entries.keys value.children = Entries.keys value.fields ∨
      Path.PlainKeys (Entries.keys value.children) := by
  cases value with
  | array items =>
      right
      have keys : Entries.keys (children (.array items : Value φ)) =
          (List.range' 0 items.length).map fun index => toString index := by
        rw [← List.zipIdx_map_snd, Entries.keys, children, List.map_map, List.map_map]
        rfl
      rw [keys]
      constructor
      · rw [List.Nodup, List.pairwise_map]
        exact (List.nodup_range' 1).imp fun different same => different (index_injective same)
      · intro key member
        obtain ⟨index, _, rfl⟩ := List.mem_map.mp member
        exact plain_index index
  | _ => exact .inl rfl

theorem plain_keys_children {value : Value φ} (plain : Path.PlainKeys (Entries.keys value.fields)) :
    Path.PlainKeys (Entries.keys value.children) := by
  rcases keys_children_cases value with same | indices
  · rw [same]
    exact plain
  · exact indices

theorem distinct_keys_children {value : Value φ} (distinct : (Entries.keys value.fields).Nodup) :
    (Entries.keys value.children).Nodup := by
  rcases keys_children_cases value with same | indices
  · rw [same]
    exact distinct
  · exact indices.1

theorem descend_eq_some_iff_leads {value part : Value φ} (level : EveryLevel List.Nodup value)
    (keys : List String) : descend keys value = some part ↔ Leads keys value part := by
  induction level generalizing keys with
  | @of value here parts ih =>
      cases keys with
      | nil => simp [descend, Leads]
      | cons key rest =>
          have distinct := distinct_keys_children here
          simp only [descend, Option.bind_eq_some_iff, Leads, child?,
            Entries.get?_eq_some_iff_mem distinct]
          constructor
          · intro reached
            obtain ⟨child, member, found⟩ := reached
            exact ⟨child, member, (ih _ member rest).mp found⟩
          · intro reached
            obtain ⟨child, member, found⟩ := reached
            exact ⟨child, member, (ih _ member rest).mpr found⟩

theorem distinct_of_plain {value : Value φ} (plain : EveryLevel Path.PlainKeys value) :
    EveryLevel List.Nodup value :=
  plain.imp fun _ keys => keys.1

theorem every_level_of_leads {holds : List String → Prop} {value part : Value φ}
    (level : EveryLevel holds value) {keys : List String} (leads : Leads keys value part) :
    EveryLevel holds part := by
  induction keys generalizing value with
  | nil =>
      obtain rfl : value = part := leads
      exact level
  | cons key rest ih =>
      obtain ⟨child, member, leads⟩ := leads
      obtain ⟨_, parts⟩ := level
      exact ih (parts _ member) leads

/-- What holds of every key among the children, at every level, holds of the keys of a chain. -/
theorem forall_mem_of_leads {holds : List String → Prop} {good : String → Prop}
    (each : ∀ value : Value φ, holds (Entries.keys value.fields) →
      ∀ key ∈ Entries.keys value.children, good key)
    {value part : Value φ} (level : EveryLevel holds value) {keys : List String}
    (leads : Leads keys value part) : ∀ key ∈ keys, good key := by
  induction keys generalizing value with
  | nil => simp
  | cons key rest ih =>
      obtain ⟨child, member, leads⟩ := leads
      obtain ⟨here, parts⟩ := level
      have first := each value here key (List.mem_map.mpr ⟨_, member, rfl⟩)
      exact List.forall_mem_cons.mpr ⟨first, ih (parts _ member) leads⟩

theorem plain_of_leads {value part : Value φ} (plain : EveryLevel Path.PlainKeys value)
    {keys : List String} (leads : Leads keys value part) : ∀ key ∈ keys, Path.IsPlain key :=
  forall_mem_of_leads (fun _ here => (plain_keys_children here).2) plain leads

/-- In a plain value every visit to a path of plain keys is the one those keys lead to. -/
theorem descend_of_visit {depth : Nat} {value : Value φ} (plain : EveryLevel Path.PlainKeys value)
    {keys : List String} {path : String} (keysPlain : ∀ key ∈ keys, Path.IsPlain key)
    (reached : Path.extend none keys = some path) {visit : Visit φ}
    (member : visit ∈ visits depth none true value) (same : visit.path = path) :
    descend keys value = some visit.part := by
  obtain ⟨chain, _, _, leads, spelled, _⟩ := (mem_visits_iff _ _ _ _ _).mp member
  have agree : chain = keys := by
    rw [← Path.segments_of_extend (plain_of_leads plain leads) spelled,
      ← Path.segments_of_extend keysPlain reached, same]
  rw [← agree]
  exact (descend_eq_some_iff_leads (distinct_of_plain plain) _).mpr leads

/-- In a plain value, looking up the path of plain keys is following them, as deep as the outline
goes. -/
theorem get_outline_of_plain {depth : Nat} {value : Value φ} (plain : EveryLevel Path.PlainKeys value)
    {key : String} {rest : List String} {path : String}
    (keysPlain : ∀ other ∈ key :: rest, Path.IsPlain other) (short : rest.length < depth)
    (reached : Path.extend none (key :: rest) = some path) :
    Entries.get? path (value.outline depth) = descend (key :: rest) value := by
  have unique := fun visit member same =>
    @descend_of_visit φ depth value plain (key :: rest) path keysPlain reached visit member same
  rw [get_outline]
  cases found : descend (key :: rest) value with
  | none =>
      have absent : ∀ visit ∈ visits depth none true value, visit.path ≠ path := by
        intro visit member same
        simp [unique visit member same] at found
      rw [chosen_visit_eq_none_iff.mpr absent]
      rfl
  | some part =>
      have leads := (descend_eq_some_iff_leads (distinct_of_plain plain) _).mp found
      have undotted := Path.is_undotted_iff.mpr fun other member => (keysPlain other member).2
      have visited : (⟨path, true, part⟩ : Visit φ) ∈ visits depth none true value :=
        (mem_visits_iff _ _ _ _ _).mpr
          ⟨key :: rest, by simp, short, leads, reached, by rw [undotted]; rfl⟩
      cases chosen : chosenVisit path (visits depth none true value) with
      | none =>
          exact absurd rfl (chosen_visit_eq_none_iff.mp chosen _ visited)
      | some visit =>
          obtain ⟨member, same⟩ := mem_of_chosen_visit chosen
          rw [unique visit member same] at found
          exact found

def Reaches (root : Value φ) (above : Option String) (value : Value φ) : Prop :=
  ∃ front, (∀ key ∈ front, Path.IsPlain key) ∧ Path.extend none front = above ∧
    descend front root = some value

theorem reaches_root (root : Value φ) : Reaches root none root :=
  ⟨[], by simp, rfl, rfl⟩

theorem spells_of_reaches {root value : Value φ} {above : Option String}
    (reaches : Reaches root above value) : ∃ front, Path.Spells above front := by
  obtain ⟨front, plain, rfl, _⟩ := reaches
  exact ⟨front, Path.spells_extend Path.spells_none plain⟩

theorem reaches_child {root value part : Value φ} {above : Option String} {key : String}
    (reaches : Reaches root above value) (plain : Path.IsPlain key)
    (found : value.child? key = some part) : Reaches root (some (Path.join above key)) part := by
  obtain ⟨front, frontPlain, rfl, reached⟩ := reaches
  refine ⟨front ++ [key], ?_, Path.extend_append none front [key], ?_⟩
  · intro other member
    rcases List.mem_append.mp member with member | same
    · exact frontPlain other member
    · exact List.mem_singleton.mp same ▸ plain
  · rw [descend_append, reached]
    simp [descend, found]

theorem plain_of_reaches {root value : Value φ} {above : Option String}
    (plain : EveryLevel Path.PlainKeys root) (reaches : Reaches root above value) :
    EveryLevel Path.PlainKeys value := by
  obtain ⟨front, _, _, reached⟩ := reaches
  have leads := (descend_eq_some_iff_leads (distinct_of_plain plain) front).mp reached
  exact every_level_of_leads plain leads

theorem plain_child_at {value : Value φ} (plain : EveryLevel Path.PlainKeys value)
    (key : String) : EveryLevel Path.PlainKeys (value.childAt key) := by
  obtain ⟨_, parts⟩ := plain
  unfold childAt
  cases found : value.child? key with
  | none => exact every_level_of_no_children (by decide) rfl
  | some part => exact parts _ (Entries.mem_of_get? found)

/-- What the outline of a plain value holds one key below a reached part. -/
theorem part_at_of_reaches {root value : Value φ} {above : Option String} {key : String}
    {depth : Nat} (plain : EveryLevel Path.PlainKeys root) (reaches : Reaches root above value)
    (keyPlain : Path.IsPlain key) (short : Path.depth (Path.join above key) ≤ depth) :
    partAt (root.outline depth) (Path.join above key) = value.childAt key := by
  obtain ⟨front, frontPlain, rfl, reached⟩ := reaches
  have segments := Path.segments_join_of_spells (Path.spells_extend Path.spells_none frontPlain)
    keyPlain
  rw [Path.depth, segments] at short
  have chain : ∀ other ∈ front ++ [key], Path.IsPlain other := by
    intro other member
    rcases List.mem_append.mp member with member | same
    · exact frontPlain other member
    · exact List.mem_singleton.mp same ▸ keyPlain
  have spelled : Path.extend none (front ++ [key]) =
      some (Path.join (Path.extend none front) key) := Path.extend_append none front [key]
  have found := descend_append front [key] root
  rw [reached] at found
  cases shape : front ++ [key] with
  | nil => simp at shape
  | cons first rest =>
      rw [List.nil_append, shape, List.length_cons] at short
      rw [shape] at chain spelled found
      rw [partAt, get_outline_of_plain plain chain short spelled, found]
      cases child : value.child? key <;> simp [childAt, descend, child]

end ObjectShape.Value
