import ObjectShape.Proofs.Declaration.Placement
import ObjectShape.Proofs.Shape.Assembly

/-!
# Laid out members

What a member is laid out as: a property at its path, and for a nested object the properties of its
members after it. With plain keys no property lies at or below the path of a later one, so nothing is
merged, and the laid out order names ancestors first as well as the sorted one.
-/

namespace ObjectShape.Shape

set_option autoImplicit false

variable {φ : Type}

theorem lay_out_cons {policy : EmptyPolicy} {label above : Option String} {key : String}
    {member : Member φ} {rest : List (String × Member φ)} {declared : List (Property φ)}
    (laidOut : layOut policy label above ((key, member) :: rest) = .ok declared) :
    ∃ own later, layOutMember policy label (Path.join above key) member = .ok own ∧
      layOut policy label above rest = .ok later ∧ declared = own ++ later := by
  rw [layOut, bind_eq_ok_iff] at laidOut
  obtain ⟨own, first, laidOut⟩ := laidOut
  rw [bind_eq_ok_iff] at laidOut
  obtain ⟨later, second, joined⟩ := laidOut
  exact ⟨own, later, first, second, (pure_eq_ok_iff.mp joined).symm⟩

theorem lay_out_nested {policy : EmptyPolicy} {label : Option String} {path : String}
    {required : Bool} {validators : List (BasicType × List (Function φ))}
    {members : List (String × Member φ)} {own : List (Property φ)}
    (laidOut : layOutMember policy label path (.nested required validators ⟨members⟩) = .ok own) :
    ∃ inner, layOut policy label (some path) members = .ok inner ∧
      own = { path, required, choices := [.named .object], validators } :: inner := by
  rw [layOutMember, bind_eq_ok_iff] at laidOut
  obtain ⟨inner, further, joined⟩ := laidOut
  exact ⟨inner, further, (pure_eq_ok_iff.mp joined).symm⟩

/-- A member that is not nested is laid out as one property, with a choice for each type. -/
theorem lay_out_leaf {policy : EmptyPolicy} {label : Option String} {path : String}
    {member : Member φ} {own : List (Property φ)}
    (flat : ∀ required validators inner, member ≠ .nested required validators inner)
    (laidOut : layOutMember policy label path member = .ok own) :
    ∃ choices, resolveLater policy (Path.join label path) member.types = .ok choices ∧
      own = [{ path, required := member.isRequired, choices, validators := member.validators }] := by
  rw [lay_out_member_of_flat flat, bind_eq_ok_iff] at laidOut
  obtain ⟨property, made, alone⟩ := laidOut
  rw [propertyOf, bind_eq_ok_iff] at made
  obtain ⟨choices, chosen, same⟩ := made
  obtain ⟨_, each⟩ := (choices_of_eq_ok_iff flat).mp chosen
  refine ⟨choices, ?_, ?_⟩
  · rw [resolve_later_eq_map_m]
    exact map_m_eq_ok_iff.mpr each
  · rw [← pure_eq_ok_iff.mp alone, ← pure_eq_ok_iff.mp same]

theorem lay_out_nil {policy : EmptyPolicy} {label above : Option String}
    {declared : List (Property φ)} (laidOut : layOut policy label above [] = .ok declared) :
    declared = [] := by
  rw [layOut] at laidOut
  exact (Except.ok.inj laidOut).symm

theorem lay_out_within (policy : EmptyPolicy) (label above : Option String)
    (members : List (String × Member φ)) (declared : List (Property φ))
    (laidOut : layOut policy label above members = .ok declared)
    (filled : ∀ key ∈ Entries.keys members, Path.join above key ≠ "")
    (property : Property φ) (laid : property ∈ declared) :
    ∃ key ∈ Entries.keys members, Path.IsWithin property.path (Path.join above key) := by
  induction members using members_induction generalizing above declared with
  | nil =>
      rw [lay_out_nil laidOut] at laid
      exact absurd laid List.not_mem_nil
  | leaf key member rest flat ih =>
      obtain ⟨own, later, first, second, rfl⟩ := lay_out_cons laidOut
      rcases List.mem_append.mp laid with here | there
      · obtain ⟨choices, _, rfl⟩ := lay_out_leaf flat first
        rw [List.mem_singleton.mp here]
        exact ⟨key, List.mem_cons_self, .inl rfl⟩
      · obtain ⟨other, among, within⟩ := ih above later second
          (fun other among => filled other (List.mem_cons_of_mem key among)) there
        exact ⟨other, List.mem_cons_of_mem key among, within⟩
  | nested key required validators members rest inside ih =>
      obtain ⟨own, later, first, second, rfl⟩ := lay_out_cons laidOut
      rcases List.mem_append.mp laid with here | there
      · obtain ⟨inner, further, rfl⟩ := lay_out_nested first
        refine ⟨key, List.mem_cons_self, ?_⟩
        rcases List.mem_cons.mp here with own | deeper
        · exact .inl (by rw [own])
        · have pathFilled := filled key List.mem_cons_self
          obtain ⟨other, _, within⟩ := inside (some (Path.join above key)) inner further
            (fun other _ => Path.join_some_ne_empty other pathFilled) deeper
          exact Path.is_within_trans within (.inr (Path.is_below_join other pathFilled))
      · obtain ⟨other, among, within⟩ := ih above later second
          (fun other among => filled other (List.mem_cons_of_mem key among)) there
        exact ⟨other, List.mem_cons_of_mem key among, within⟩

theorem lay_out_member_within {policy : EmptyPolicy} {label above : Option String} {key : String}
    {member : Member φ} {own : List (Property φ)}
    (laidOut : layOutMember policy label (Path.join above key) member = .ok own)
    (filled : key ≠ "") (property : Property φ) (laid : property ∈ own) :
    Path.IsWithin property.path (Path.join above key) := by
  have alone : layOut policy label above [(key, member)] = .ok own := by
    rw [layOut, bind_eq_ok_iff]
    exact ⟨own, laidOut, by simp [layOut, bind, Except.bind, pure, Except.pure]⟩
  have within := lay_out_within policy label above [(key, member)] own alone
    (fun other among => List.mem_singleton.mp among ▸ Path.join_ne_empty above filled) property laid
  obtain ⟨other, among, within⟩ := within
  have same : other = key := List.mem_singleton.mp among
  rw [← same]
  exact within

theorem lay_out_siblings_apart {policy : EmptyPolicy} {label above : Option String}
    {front : List String} {key : String} {member : Member φ} {rest : List (String × Member φ)}
    {own later : List (Property φ)} (spelled : Path.Spells above front)
    (plain : PlainMembers ((key, member) :: rest))
    (first : layOutMember policy label (Path.join above key) member = .ok own)
    (second : layOut policy label above rest = .ok later)
    (left : Property φ) (inOwn : left ∈ own) (right : Property φ) (inLater : right ∈ later) :
    ¬ Path.IsWithin left.path right.path ∧ ¬ Path.IsWithin right.path left.path := by
  obtain ⟨keyPlain, fresh, _, restPlain⟩ := plain_members_cons plain
  have leftWithin := lay_out_member_within first keyPlain.1 left inOwn
  obtain ⟨other, among, rightWithin⟩ := lay_out_within policy label above rest later second
    (fun other among => Path.join_ne_empty above (plain_of_mem_members restPlain among).1)
    right inLater
  have otherPlain := plain_of_mem_members restPlain among
  have different : key ≠ other := fun same => fresh (same ▸ among)
  constructor
  · intro within
    exact different (Path.eq_of_is_within_siblings spelled keyPlain otherPlain leftWithin
      (Path.is_within_trans within rightWithin))
  · intro within
    exact different (Path.eq_of_is_within_siblings spelled keyPlain otherPlain
      (Path.is_within_trans within leftWithin) rightWithin)

theorem lay_out_nested_below {policy : EmptyPolicy} {label : Option String} {path : String}
    {members : List (String × Member φ)} {inner : List (Property φ)} (filled : path ≠ "")
    (further : layOut policy label (some path) members = .ok inner)
    (property : Property φ) (laid : property ∈ inner) :
    Path.isBelow property.path path = true := by
  obtain ⟨other, _, within⟩ := lay_out_within policy label (some path) members inner further
    (fun other _ => Path.join_some_ne_empty other filled) property laid
  have step := Path.is_below_join other filled
  rcases within with same | below
  · rw [same]
    exact step
  · exact Path.is_below_trans below step

-- The order of the layout: a nested object's own property stands before those inside it.
theorem lay_out_ordered (policy : EmptyPolicy) (label above : Option String)
    (front : List String) (spelled : Path.Spells above front) (members : List (String × Member φ))
    (plain : PlainMembers members) (declared : List (Property φ))
    (laidOut : layOut policy label above members = .ok declared) :
    declared.Pairwise fun earlier later => ¬ Path.IsWithin earlier.path later.path := by
  induction members using members_induction generalizing above front declared with
  | nil =>
      rw [lay_out_nil laidOut]
      exact List.Pairwise.nil
  | leaf key member rest flat ih =>
      obtain ⟨own, later, first, second, rfl⟩ := lay_out_cons laidOut
      have apart := lay_out_siblings_apart spelled plain first second
      obtain ⟨choices, _, rfl⟩ := lay_out_leaf flat first
      refine List.pairwise_append.mpr ⟨List.pairwise_singleton _ _, ?_, ?_⟩
      · exact ih above front spelled (plain_members_cons plain).2.2.2 later second
      · exact fun left inOwn right inLater => (apart left inOwn right inLater).1
  | nested key required validators members rest inside ih =>
      obtain ⟨own, later, first, second, rfl⟩ := lay_out_cons laidOut
      have apart := lay_out_siblings_apart spelled plain first second
      obtain ⟨keyPlain, _, innerPlain, restPlain⟩ := plain_members_cons plain
      obtain ⟨inner, further, rfl⟩ := lay_out_nested first
      refine List.pairwise_append.mpr ⟨List.pairwise_cons.mpr ⟨?_, ?_⟩, ?_, ?_⟩
      · intro property laid within
        have below := lay_out_nested_below (Path.join_ne_empty above keyPlain.1) further property laid
        rcases within with same | cyclic
        · rw [← same, Path.is_below_irrefl] at below
          exact Bool.false_ne_true below
        · have loop := Path.is_below_trans below cyclic
          rw [Path.is_below_irrefl] at loop
          exact Bool.false_ne_true loop
      · exact inside (some (Path.join above key)) (front ++ [key])
          (Path.spells_join spelled keyPlain) (innerPlain ⟨members⟩ (by simp [Member.inner]))
          inner further
      · exact ih above front spelled restPlain later second
      · exact fun left inOwn right inLater => (apart left inOwn right inLater).1

end ObjectShape.Shape
