import ObjectShape.Proofs.Declaration.Repeated
import ObjectShape.Proofs.Path.Chains
import ObjectShape.Proofs.Value.Lookup
import ObjectShape.Proofs.Value.Recording

/-!
# Paths of their own

Values and declarations are both walked key by key, with a path for every chain of keys. A chain
without dotted keys shares its path with another such chain only if one of them starts with an empty
key, which its path does not show. So two parts of a value that are nested have different paths, and
two members of a declaration are merged only over a dotted key, unless an empty key at the very top
is in the way.
-/

namespace ObjectShape

set_option autoImplicit false

variable {φ : Type}

mutual

/-- The members of a declaration and of the objects nested in it, each under the chain of keys that
leads to it, in the order of `placements`. -/
def chained : List (String × Member φ) → List (List String × Member φ)
  | [] => []
  | (key, member) :: rest =>
      ([key], member) ::
        ((chainedInside member).map (fun step => (key :: step.1, step.2)) ++ chained rest)
termination_by structural members => members

def chainedInside : Member φ → List (List String × Member φ)
  | .single _ | .anyOf _ | .record _ _ _ => []
  | .nested _ _ ⟨members⟩ => chained members
termination_by structural member => member

end

/-- The chains of keys under which a declaration, and the objects nested in it, have members. -/
def Declaration.chains (declaration : Declaration φ) : List (List String) :=
  (chained declaration.members).map Prod.fst

theorem chained_inside_of_flat {member : Member φ}
    (flat : ∀ required validators inner, member ≠ .nested required validators inner) :
    chainedInside member = [] := by
  cases member with
  | nested required validators inner => exact absurd rfl (flat required validators inner)
  | _ => rfl

/-- Members are placed under the paths of their chains. -/
theorem placements_eq_map_chained (above : Option String) (members : List (String × Member φ)) :
    placements above members =
      (chained members).map fun step => ((Path.extend above step.1).getD "", step.2) := by
  induction members using members_induction generalizing above with
  | nil => rfl
  | leaf key member rest flat ih =>
      rw [placements, chained, placements_inside_of_flat flat, chained_inside_of_flat flat, ih]
      rfl
  | nested key required validators members rest inside ih =>
      rw [placements, placementsInside, chained, chainedInside, inside, ih, List.map_cons,
        List.map_append, List.map_map]
      rfl

theorem chain_of_chained {members : List (String × Member φ)} {step : List String × Member φ}
    (listed : step ∈ chained members) :
    ∃ key ∈ Entries.keys members, ∃ rest, step.1 = key :: rest := by
  induction members with
  | nil => exact absurd listed List.not_mem_nil
  | cons entry members ih =>
      rw [chained, List.mem_cons, List.mem_append] at listed
      rcases listed with rfl | inside | later
      · exact ⟨entry.1, List.mem_cons_self, [], rfl⟩
      · obtain ⟨deeper, _, rfl⟩ := List.mem_map.mp inside
        exact ⟨entry.1, List.mem_cons_self, deeper.1, rfl⟩
      · obtain ⟨key, among, rest, same⟩ := ih later
        exact ⟨key, List.mem_cons_of_mem _ among, rest, same⟩

/-- A key that is not declared again starts no chain of the members behind it. -/
theorem not_mem_chained_of_fresh {key : String} {chain : List String}
    {members : List (String × Member φ)} (fresh : key ∉ Entries.keys members) :
    key :: chain ∉ (chained members).map Prod.fst := by
  intro listed
  obtain ⟨step, among, same⟩ := List.mem_map.mp listed
  obtain ⟨other, declared, rest, started⟩ := chain_of_chained among
  rw [started] at same
  exact fresh ((List.cons.inj same).1 ▸ declared)

theorem chained_nodup {members : List (String × Member φ)}
    (level : Declaration.EveryLevel List.Nodup ⟨members⟩) :
    ((chained members).map Prod.fst).Nodup := by
  induction members using members_induction with
  | nil => exact List.nodup_nil
  | leaf key member rest flat ih =>
      obtain ⟨distinct, further⟩ := level
      obtain ⟨fresh, distinct⟩ := List.nodup_cons.mp distinct
      rw [chained, chained_inside_of_flat flat]
      refine List.nodup_cons.mpr ⟨not_mem_chained_of_fresh fresh, ih (.of distinct ?_)⟩
      exact fun entry later => further entry (List.mem_cons_of_mem _ later)
  | nested key required validators members rest inside ih =>
      obtain ⟨distinct, further⟩ := level
      obtain ⟨fresh, distinct⟩ := List.nodup_cons.mp distinct
      have inner := inside (further _ List.mem_cons_self ⟨members⟩ (List.mem_singleton.mpr rfl))
      have later := ih (.of distinct fun entry later => further entry (List.mem_cons_of_mem _ later))
      rw [chained, chainedInside, List.map_cons, List.map_append, List.map_map, List.nodup_cons,
        List.nodup_append]
      refine ⟨?_, ?_, later, ?_⟩
      · rw [List.mem_append, not_or]
        refine ⟨?_, not_mem_chained_of_fresh fresh⟩
        intro listed
        obtain ⟨step, among, same⟩ := List.mem_map.mp listed
        obtain ⟨_, _, _, started⟩ := chain_of_chained among
        simp [started] at same
      · have under := inner.map (List.cons_injective (a := key))
        rwa [List.map_map] at under
      · intro chain inOwn other inLater same
        obtain ⟨step, _, rfl⟩ := List.mem_map.mp inOwn
        exact not_mem_chained_of_fresh fresh (same ▸ inLater)

/-- The members that stand under a path, as far as the declaration is told apart by chains. -/
theorem members_at_eq_map_chained (path : String) (declaration : Declaration φ) :
    declaration.membersAt path =
      ((chained declaration.members).filter fun step => Path.extend none step.1 = some path).map
        Prod.snd := by
  have spelled : ∀ step ∈ chained declaration.members,
      ((Path.extend none step.1).getD "" = path ↔ Path.extend none step.1 = some path) := by
    intro step listed
    obtain ⟨key, _, rest, started⟩ := chain_of_chained listed
    obtain ⟨reached, spells⟩ := Path.exists_extend none (List.cons_ne_nil key rest)
    simp [started, spells]
  rw [Declaration.membersAt, placements_eq_map_chained, List.filter_map, List.map_map]
  congr 1
  apply List.filter_congr
  intro step listed
  simp [spelled step listed]

/-- Two members under one path have different chains, and one of these hides a key. -/
theorem hidden_key_of_shared_path {path : String} {declaration : Declaration φ}
    (level : declaration.EveryLevel List.Nodup) {first second : Member φ} {others : List (Member φ)}
    (shared : declaration.membersAt path = first :: second :: others) :
    ∃ earlier ∈ declaration.chains, ∃ later ∈ declaration.chains, earlier ≠ later ∧
      Path.extend none earlier = some path ∧ Path.extend none later = some path ∧
      (Path.showsKeys earlier = false ∨ Path.showsKeys later = false) := by
  obtain ⟨members⟩ := declaration
  have distinct := chained_nodup level
  rw [members_at_eq_map_chained, List.map_eq_cons_iff] at shared
  obtain ⟨earlier, rest, listed, _, shared⟩ := shared
  obtain ⟨later, rest, rfl, _, _⟩ := List.map_eq_cons_iff.mp shared
  have kept := List.filter_sublist (p := fun step => decide (Path.extend none step.1 = some path))
    (l := chained members)
  have member : ∀ step ∈ earlier :: later :: rest,
      step.1 ∈ (Declaration.mk members).chains ∧ Path.extend none step.1 = some path := by
    intro step among
    obtain ⟨among, spells⟩ := List.mem_filter.mp (listed ▸ among)
    exact ⟨List.mem_map_of_mem among, of_decide_eq_true spells⟩
  rw [listed] at kept
  have different : earlier.1 ≠ later.1 := by
    have apart := distinct.sublist (kept.map Prod.fst)
    exact (List.nodup_cons.mp apart).1 ∘ fun same => same ▸ List.mem_cons_self
  obtain ⟨earlierListed, earlierSpells⟩ := member earlier List.mem_cons_self
  obtain ⟨laterListed, laterSpells⟩ := member later (by simp)
  refine ⟨_, earlierListed, _, laterListed, different, earlierSpells, laterSpells, ?_⟩
  cases earlierShown : Path.showsKeys earlier.1 with
  | false => exact .inl rfl
  | true =>
      right
      rw [Bool.eq_false_iff]
      intro laterShown
      exact different (Path.eq_of_shown earlierShown laterShown earlierSpells laterSpells)

namespace Value

/-- Two nested parts that the walk meets under one path differ in dropped keys. -/
theorem nested_visits_share_by_drops (depth : Nat) {value : Value φ}
    (level : value.EveryLevel List.Nodup) :
    (walk depth value).Pairwise fun earlier later =>
      (visitAlong none true earlier).nested = true → (visitAlong none true later).nested = true →
        (visitAlong none true earlier).path = (visitAlong none true later).path →
          Path.dropsKey earlier.1 = true ∨ Path.dropsKey later.1 = true := by
  have distinct := chains_nodup depth level
  rw [List.Nodup, List.pairwise_map] at distinct
  refine distinct.imp_of_mem fun {earlier later} walked laterWalked different => ?_
  intro nested laterNested shared
  have reached := (visit_along_path walked _).mp rfl
  have laterReached := (visit_along_path laterWalked _).mp shared.symm
  exact Path.drops_key_of_shared_path nested laterNested different reached laterReached

end Value

namespace Shape

/-- A property of a built shape is that of the only member under its path, or several members stand
there. -/
theorem single_or_several_members {policy : EmptyPolicy} {label : Option String} {sorted : Bool}
    {declaration : Declaration φ} {shape : Shape φ} {path : String} {property : Property φ}
    (built : build policy label sorted declaration = .ok shape)
    (found : shape.property? path = some property) :
    (∃ member own, declaration.membersAt path = [member] ∧
        propertyOf policy label (path, member) = .ok own ∧ property = own.settle) ∨
      ∃ first second others, declaration.membersAt path = first :: second :: others := by
  obtain ⟨members⟩ := declaration
  rcases build_cases built with ⟨_, _, rfl⟩ | ⟨_, declared, laidOut, rfl⟩
  · exact absurd found (by simp [disabled, property?, Entries.get?])
  · have each := declared_at_of_laid_out laidOut path
    rw [property_at, mergedAt] at found
    cases placed : Declaration.membersAt path ⟨members⟩ with
    | nil =>
        rw [placed, List.forall₂_nil_left_iff] at each
        simp [each] at found
    | cons member others =>
        cases others with
        | nil =>
            rw [placed, List.forall₂_cons_left_iff] at each
            obtain ⟨own, later, made, none, alone⟩ := each
            obtain rfl := List.forall₂_nil_left_iff.mp none
            rw [alone] at found
            exact .inl ⟨member, own, rfl, made, (Option.some.inj found).symm⟩
        | cons second others => exact .inr ⟨member, second, others, rfl⟩

end Shape

/-- Two chains of keys without dots spell one path if and only if they are the same without the empty
keys that they start with, the last key apart; so of two different chains with one path, one starts
with an empty key and goes on. Likewise of two nested parts of a value under one path, one lies below
an empty key of the value itself. What a declaration compiles to is merged at a path only if two of
its chains spell the path, one of which holds a dotted key or starts with an empty key and goes on. -/
theorem paths_unique_up_to_dropped_keys :
    (∀ left right : List String, left ≠ [] → right ≠ [] →
        Path.isUndotted left = true → Path.isUndotted right = true →
          (Path.extend none left = Path.extend none right ↔
              Path.keptKeys left = Path.keptKeys right) ∧
            (left ≠ right → Path.extend none left = Path.extend none right →
              Path.dropsKey left = true ∨ Path.dropsKey right = true)) ∧
      (∀ (depth : Nat) (document : Value.Indexed φ),
        Value.visits depth none true document.value =
            (Value.walk depth document.value).map (Value.visitAlong none true) ∧
          (Value.walk depth document.value).Pairwise fun earlier later =>
            (Value.visitAlong none true earlier).nested = true →
              (Value.visitAlong none true later).nested = true →
                (Value.visitAlong none true earlier).path =
                    (Value.visitAlong none true later).path →
                  Path.dropsKey earlier.1 = true ∨ Path.dropsKey later.1 = true) ∧
      ∀ (policy : EmptyPolicy) (label : Option String) (sorted : Bool)
        (schema : Declaration.Indexed φ) (shape : Shape φ) (path : String) (property : Property φ),
        Shape.build policy label sorted schema.declaration = .ok shape →
          shape.property? path = some property →
            (∃ member own, schema.declaration.membersAt path = [member] ∧
                Shape.propertyOf policy label (path, member) = .ok own ∧ property = own.settle) ∨
              ∃ earlier ∈ schema.declaration.chains, ∃ later ∈ schema.declaration.chains,
                earlier ≠ later ∧ Path.extend none earlier = some path ∧
                Path.extend none later = some path ∧
                (Path.showsKeys earlier = false ∨ Path.showsKeys later = false) := by
  refine ⟨?_, ?_, ?_⟩
  · intro left right leftFilled _ leftUndotted rightUndotted
    refine ⟨Path.extend_eq_iff leftFilled leftUndotted rightUndotted, ?_⟩
    intro different shared
    obtain ⟨path, reached⟩ := Path.exists_extend none leftFilled
    exact Path.drops_key_of_shared_path leftUndotted rightUndotted different reached
      (shared.symm.trans reached)
  · intro depth document
    exact ⟨Value.visits_eq_map_walk depth none true document.value,
      Value.nested_visits_share_by_drops depth document.distinct⟩
  · intro policy label sorted schema shape path property built found
    apply (Shape.single_or_several_members built found).imp_right
    intro several
    obtain ⟨first, second, others, shared⟩ := several
    exact hidden_key_of_shared_path schema.distinct shared

def besideEmpty : Value Empty :=
  .object ⟨0, 0⟩ [("a", .bigint 2), ("", .object ⟨1, 1⟩ [("a", .bigint 1)])]

def declaredBesideEmpty : Declaration Empty :=
  ⟨[("", .nested true [] ⟨[("a", .single (.named .string))]⟩), ("a", .single (.named .bigint)),
    ("b", .single (.named .null))]⟩

def shapeBesideEmpty : Shape Empty :=
  { properties :=
      [("", ⟨"", true, [.named .object], []⟩),
        ("a", ⟨"a", true, [.named .string, .named .bigint], []⟩),
        ("b", ⟨"b", true, [.named .null], []⟩)]
    keys := ["", "a", "b"]
    enabled := true
    depth := 1 }

theorem beside_empty_paths_unique :
    Path.extend none ["a", "", "b"] = Path.extend none ["", "", "a", "", "b"] ∧
      ((Value.walk 2 besideEmpty).Pairwise fun earlier later =>
        (Value.visitAlong none true earlier).nested = true →
          (Value.visitAlong none true later).nested = true →
            (Value.visitAlong none true earlier).path = (Value.visitAlong none true later).path →
              Path.dropsKey earlier.1 = true ∨ Path.dropsKey later.1 = true) ∧
      declaredBesideEmpty.compile .reject = .ok shapeBesideEmpty ∧
      ∃ earlier ∈ declaredBesideEmpty.chains, ∃ later ∈ declaredBesideEmpty.chains,
        earlier ≠ later ∧ Path.extend none earlier = some "a" ∧
          Path.extend none later = some "a" ∧
          (Path.showsKeys earlier = false ∨ Path.showsKeys later = false) := by
  obtain ⟨spelled, parts, members⟩ := paths_unique_up_to_dropped_keys (φ := Empty)
  have compiled : declaredBesideEmpty.compile .reject = .ok shapeBesideEmpty := by cbv
  refine ⟨?_, (parts 2 ⟨besideEmpty, by decide⟩).2, compiled, ?_⟩
  · exact (spelled _ _ (by simp) (by simp) (by decide) (by decide)).1.mpr (by decide)
  · have several : (declaredBesideEmpty.membersAt "a").length = 2 := by decide
    rcases members .reject none true ⟨declaredBesideEmpty, by decide⟩ _ "a" _ compiled rfl with
      alone | shared
    · obtain ⟨_, _, single, _⟩ := alone
      simp [single] at several
    · exact shared

theorem empty_key_shares_paths :
    (Path.isUndotted ["", "a"] = true ∧ Path.isUndotted ["a"] = true ∧ ["", "a"] ≠ ["a"] ∧
        Path.extend none ["", "a"] = Path.extend none ["a"]) ∧
      ((Value.visits 2 none true besideEmpty).map fun visit => (visit.path, visit.nested)) =
        [("a", true), ("a", true), ("", true)] ∧
      Entries.get? "a" (besideEmpty.outline 2) = some (.bigint 1) ∧
      declaredBesideEmpty.compile .reject = .ok shapeBesideEmpty ∧
      (declaredBesideEmpty.membersAt "a").length = 2 ∧
      ∀ chain ∈ declaredBesideEmpty.chains, Path.isUndotted chain = true := by
  refine ⟨by decide, ?_, ?_, ?_, ?_, ?_⟩
  · cbv
  · cbv
  · cbv
  · decide
  · decide

end ObjectShape
