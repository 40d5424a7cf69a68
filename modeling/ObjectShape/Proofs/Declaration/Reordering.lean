import ObjectShape.Proofs.Declaration.Levels
import ObjectShape.Proofs.Shape.Layout
import ObjectShape.Proofs.Shape.Likeness

/-!
# Declarations in another order

The members of a declaration, of the objects nested in it and of the declarations it lists as types
may each stand in another order. With plain keys either order lays out the same properties, and
ancestors come first in both, so the compiled shapes accept the same values.
-/

namespace ObjectShape

set_option autoImplicit false

variable {φ : Type}

mutual

/-- The members of the declaration, reordered inside, and then moved to other places. -/
inductive Declaration.Reorders : Declaration φ → Declaration φ → Prop where
  | of {members middle others : List (String × Member φ)} (inside : MembersReorder members middle)
      (moved : middle.Perm others) : Declaration.Reorders ⟨members⟩ ⟨others⟩

inductive MembersReorder : List (String × Member φ) → List (String × Member φ) → Prop where
  | nil : MembersReorder [] []
  | cons {key : String} {member other : Member φ} {rest later : List (String × Member φ)}
      (here : Member.Reorders member other) (further : MembersReorder rest later) :
      MembersReorder ((key, member) :: rest) ((key, other) :: later)

inductive Member.Reorders : Member φ → Member φ → Prop where
  | single {type other : TypeSpec φ} (here : TypeSpec.Reorders type other) :
      Member.Reorders (.single type) (.single other)
  | anyOf {types others : List (TypeSpec φ)} (each : TypesReorder types others) :
      Member.Reorders (.anyOf types) (.anyOf others)
  | record {required : Bool} {types others : List (TypeSpec φ)}
      {validators : List (BasicType × List (Function φ))} (each : TypesReorder types others) :
      Member.Reorders (.record required types validators) (.record required others validators)
  | nested {required : Bool} {validators : List (BasicType × List (Function φ))}
      {inner other : Declaration φ} (inside : Declaration.Reorders inner other) :
      Member.Reorders (.nested required validators inner) (.nested required validators other)

/-- The types keep their order; only the declarations among them are reordered. -/
inductive TypesReorder : List (TypeSpec φ) → List (TypeSpec φ) → Prop where
  | nil : TypesReorder [] []
  | cons {type other : TypeSpec φ} {rest later : List (TypeSpec φ)}
      (here : TypeSpec.Reorders type other) (further : TypesReorder rest later) :
      TypesReorder (type :: rest) (other :: later)

inductive TypeSpec.Reorders : TypeSpec φ → TypeSpec φ → Prop where
  | same (type : TypeSpec φ) : TypeSpec.Reorders type type
  | inline {declaration other : Declaration φ} (inside : Declaration.Reorders declaration other) :
      TypeSpec.Reorders (.inline declaration) (.inline other)

end

theorem keys_of_members_reorder {members others : List (String × Member φ)}
    (reorder : MembersReorder members others) : Entries.keys others = Entries.keys members := by
  induction members generalizing others with
  | nil =>
      cases reorder
      rfl
  | cons entry rest ih =>
      cases reorder with
      | cons here further => exact congrArg (_ :: ·) (ih further)

theorem plain_keys_of_perm {keys others : List String} (plain : Path.PlainKeys keys)
    (moved : keys.Perm others) : Path.PlainKeys others :=
  ⟨moved.nodup_iff.mp plain.1, fun key member => plain.2 key (moved.mem_iff.mpr member)⟩

def PlainInside (members : List (String × Member φ)) : Prop :=
  ∀ entry ∈ members, ∀ inner ∈ entry.2.inner, inner.EveryLevel Path.PlainKeys

def PlainTypes (types : List (TypeSpec φ)) : Prop :=
  ∀ inner ∈ types.filterMap TypeSpec.inline?, inner.EveryLevel Path.PlainKeys

mutual

/-- Reordering a plain declaration gives a plain one. -/
theorem plain_of_reorders {declaration other : Declaration φ} :
    declaration.Reorders other → declaration.EveryLevel Path.PlainKeys →
      other.EveryLevel Path.PlainKeys
  | .of inside moved, .of here further => by
      have keys := keys_of_members_reorder inside
      refine .of (plain_keys_of_perm here (keys ▸ moved.map Prod.fst)) fun entry member => ?_
      exact plain_inside_of_reorder inside further entry (moved.mem_iff.mpr member)
termination_by structural reorders => reorders

theorem plain_inside_of_reorder {members others : List (String × Member φ)} :
    MembersReorder members others → PlainInside members → PlainInside others
  | .nil => fun plain => plain
  | .cons here further => fun plain => by
      obtain ⟨first, rest⟩ := List.forall_mem_cons.mp plain
      exact List.forall_mem_cons.mpr
        ⟨plain_inner_of_reorders here first, plain_inside_of_reorder further rest⟩
termination_by structural reorders => reorders

theorem plain_inner_of_reorders {member other : Member φ} :
    member.Reorders other → (∀ inner ∈ member.inner, inner.EveryLevel Path.PlainKeys) →
      ∀ inner ∈ other.inner, inner.EveryLevel Path.PlainKeys
  | .single here => fun plain =>
      TypeSpec.forall_inline_singleton_iff.mpr
        (plain_type_of_reorders here (TypeSpec.forall_inline_singleton_iff.mp plain))
  | .anyOf each => plain_types_of_reorder each
  | .record each => plain_types_of_reorder each
  | .nested inside => fun plain =>
      List.forall_mem_singleton.mpr (plain_of_reorders inside (List.forall_mem_singleton.mp plain))
termination_by structural reorders => reorders

theorem plain_types_of_reorder {types others : List (TypeSpec φ)} :
    TypesReorder types others → PlainTypes types → PlainTypes others
  | .nil => fun plain => plain
  | .cons here further => fun plain => by
      obtain ⟨first, rest⟩ := TypeSpec.forall_inline_cons_iff.mp plain
      exact TypeSpec.forall_inline_cons_iff.mpr
        ⟨plain_type_of_reorders here first, plain_types_of_reorder further rest⟩
termination_by structural reorders => reorders

theorem plain_type_of_reorders {type other : TypeSpec φ} :
    type.Reorders other → (∀ inner ∈ type.inline?, inner.EveryLevel Path.PlainKeys) →
      ∀ inner ∈ other.inline?, inner.EveryLevel Path.PlainKeys
  | .same _ => fun plain => plain
  | .inline inside => fun plain _ found =>
      Option.some.inj found ▸ plain_of_reorders inside (plain _ rfl)
termination_by structural reorders => reorders

end

inductive SameOutcome {ε α β : Type} (related : α → β → Prop) : Except ε α → Except ε β → Prop where
  | ok {left : α} {right : β} (here : related left right) :
      SameOutcome related (.ok left) (.ok right)
  | error (left right : ε) : SameOutcome related (.error left) (.error right)

section Outcomes

variable {ε α β γ δ : Type}

theorem same_outcome_bind {related : α → β → Prop} {further : γ → δ → Prop} {left : Except ε α}
    {right : Except ε β} {nextLeft : α → Except ε γ} {nextRight : β → Except ε δ}
    (first : SameOutcome related left right)
    (next : ∀ a b, left = .ok a → right = .ok b → related a b →
      SameOutcome further (nextLeft a) (nextRight b)) :
    SameOutcome further (left >>= nextLeft) (right >>= nextRight) := by
  cases first with
  | ok here => exact next _ _ rfl rfl here
  | error leftFault rightFault => exact .error leftFault rightFault

theorem same_outcome_refl (left : Except ε α) : SameOutcome Eq left left := by
  cases left with
  | ok result => exact .ok rfl
  | error fault => exact .error fault fault

theorem same_outcome_trans {first : α → β → Prop} {second : β → γ → Prop} {both : α → γ → Prop}
    {left : Except ε α} {middle : Except ε β} {right : Except ε γ}
    (here : SameOutcome first left middle) (there : SameOutcome second middle right)
    (chained : ∀ a b c, first a b → second b c → both a c) : SameOutcome both left right := by
  cases here with
  | ok related =>
      cases there with
      | ok further => exact .ok (chained _ _ _ related further)
  | error leftFault middleFault =>
      cases there with
      | error _ rightFault => exact .error leftFault rightFault

theorem ok_iff_of_same_outcome {related : α → β → Prop} {left : Except ε α} {right : Except ε β}
    (same : SameOutcome related left right) :
    ((∃ result, left = .ok result) ↔ ∃ result, right = .ok result) ∧
      ∀ a b, left = .ok a → right = .ok b → related a b := by
  cases same with
  | ok here =>
      refine ⟨by simp, fun a b leftOk rightOk => ?_⟩
      rw [← Except.ok.inj leftOk, ← Except.ok.inj rightOk]
      exact here
  | error leftFault rightFault => exact ⟨by simp, by simp⟩

end Outcomes

namespace Shape

/-- Moved members lay out the same properties in other places, or fail as well. -/
theorem lay_out_of_perm (policy : EmptyPolicy) (label above : Option String)
    {members others : List (String × Member φ)} (moved : members.Perm others) :
    SameOutcome List.Perm (layOut policy label above members)
      (layOut policy label above others) := by
  induction moved with
  | nil => exact .ok (.refl _)
  | cons entry _ ih =>
      rw [layOut, layOut]
      refine same_outcome_bind (same_outcome_refl _) ?_
      rintro own _ _ _ rfl
      refine same_outcome_bind ih ?_
      intro later otherLater _ _ same
      exact .ok (same.append_left own)
  | swap first second rest =>
      rw [layOut, layOut, layOut, layOut]
      cases layOutMember policy label (Path.join above first.1) first.2 with
      | error fault =>
          cases layOutMember policy label (Path.join above second.1) second.2 <;> exact .error _ _
      | ok left =>
          cases layOutMember policy label (Path.join above second.1) second.2 with
          | error fault => exact .error _ _
          | ok right =>
              cases layOut policy label above rest with
              | error fault => exact .error _ _
              | ok later =>
                  refine .ok ?_
                  rw [← List.append_assoc, ← List.append_assoc]
                  exact List.perm_append_comm.append_right later
  | trans _ _ ihFirst ihSecond =>
      exact same_outcome_trans ihFirst ihSecond fun _ _ _ here there => here.trans there

variable [Host φ]

/-- The step from laid out members to the shape assembled from them. -/
theorem build_alike_of_likened {members others : List (String × Member φ)}
    (plain : PlainMembers members) (otherPlain : PlainMembers others)
    (empty : members = [] ↔ others = [])
    (likened : ∀ policy label above, SameOutcome Likened (layOut policy label above members)
      (layOut policy label above others)) (policy : EmptyPolicy) (label : Option String)
    (sorted : Bool) :
    SameOutcome AcceptsAlike (build policy label sorted ⟨members⟩)
      (build policy label sorted ⟨others⟩) := by
  by_cases none : members = []
  · rw [none, empty.mp none, build.eq_def]
    cases policy with
    | reject => exact .error _ _
    | disable => exact .ok fun _ => rfl
  · rw [build_of_inhabited none, build_of_inhabited fun absent => none (empty.mpr absent)]
    refine same_outcome_bind (likened policy label Option.none) ?_
    intro declared otherDeclared laidOut otherLaidOut same
    have ordered := lay_out_ordered policy label Option.none [] Path.spells_none members plain
      declared laidOut
    have otherOrdered := lay_out_ordered policy label Option.none [] Path.spells_none others
      otherPlain otherDeclared otherLaidOut
    exact .ok (accepts_alike_of_likened sorted ordered otherOrdered same)

omit [Host φ] in
theorem empty_iff_of_reorder {members middle others : List (String × Member φ)}
    (inside : MembersReorder members middle) (moved : middle.Perm others) :
    members = [] ↔ others = [] := by
  cases inside with
  | nil => exact ⟨fun _ => moved.nil_eq.symm, fun _ => rfl⟩
  | cons here further =>
      constructor
      · exact fun absent => absurd absent (List.cons_ne_nil _ _)
      · exact fun absent => absurd (absent ▸ moved).eq_nil (List.cons_ne_nil _ _)

theorem resolve_all_of_later {types others : List (TypeSpec φ)} (each : TypesReorder types others)
    {policy : EmptyPolicy} {place : String}
    (later : SameOutcome (List.Forall₂ Choice.Alike) (resolveLater policy place types)
      (resolveLater policy place others)) :
    SameOutcome (List.Forall₂ Choice.Alike) (resolveAll policy place types)
      (resolveAll policy place others) := by
  cases each with
  | nil => exact .error _ _
  | cons here further => exact later

mutual

theorem build_of_reorders {declaration other : Declaration φ} :
    declaration.Reorders other → declaration.EveryLevel Path.PlainKeys → ∀ policy label sorted,
      SameOutcome AcceptsAlike (build policy label sorted declaration)
        (build policy label sorted other)
  | .of inside moved, plain => by
      have otherPlain := plain_of_reorders (.of inside moved) plain
      refine build_alike_of_likened plain otherPlain (empty_iff_of_reorder inside moved) ?_
      intro policy label above
      obtain ⟨_, further⟩ := plain
      exact same_outcome_trans (lay_out_of_reorder inside further policy label above)
        (lay_out_of_perm policy label above moved) fun _ _ _ => likened_of_perm
termination_by structural reorders => reorders

theorem lay_out_of_reorder {members others : List (String × Member φ)} :
    MembersReorder members others → PlainInside members → ∀ policy label above,
      SameOutcome Likened (layOut policy label above members) (layOut policy label above others)
  | .nil, _ => fun _ _ _ => .ok likened_nil
  | .cons here further, plain => by
      intro policy label above
      obtain ⟨first, rest⟩ := List.forall_mem_cons.mp plain
      rw [layOut, layOut]
      refine same_outcome_bind (lay_out_member_of_reorders here first policy label _) ?_
      intro own otherOwn _ _ sameOwn
      refine same_outcome_bind (lay_out_of_reorder further rest policy label above) ?_
      intro later otherLater _ _ sameLater
      exact .ok (likened_append sameOwn sameLater)
termination_by structural reorder => reorder

theorem lay_out_member_of_reorders {member other : Member φ} :
    member.Reorders other → (∀ inner ∈ member.inner, inner.EveryLevel Path.PlainKeys) →
      ∀ policy label path, SameOutcome Likened (layOutMember policy label path member)
        (layOutMember policy label path other)
  | .single here, plain => by
      intro policy label path
      rw [layOutMember, layOutMember]
      refine same_outcome_bind
        (resolve_of_reorders here (TypeSpec.forall_inline_singleton_iff.mp plain) policy _) ?_
      intro choice otherChoice _ _ same
      exact .ok (likened_singleton ⟨rfl, rfl, rfl, .cons same .nil⟩)
  | .anyOf each, plain => by
      intro policy label path
      rw [layOutMember, layOutMember]
      refine same_outcome_bind
        (resolve_all_of_later each (resolve_later_of_reorder each plain policy _)) ?_
      intro choices otherChoices _ _ same
      exact .ok (likened_singleton ⟨rfl, rfl, rfl, same⟩)
  | .record each, plain => by
      intro policy label path
      rw [layOutMember, layOutMember]
      refine same_outcome_bind
        (resolve_all_of_later each (resolve_later_of_reorder each plain policy _)) ?_
      intro choices otherChoices _ _ same
      exact .ok (likened_singleton ⟨rfl, rfl, rfl, same⟩)
  | .nested (.of inside moved), plain => by
      intro policy label path
      obtain ⟨_, further⟩ := List.forall_mem_singleton.mp plain
      rw [layOutMember, layOutMember]
      have likened := same_outcome_trans (lay_out_of_reorder inside further policy label (some path))
        (lay_out_of_perm policy label (some path) moved) fun _ _ _ => likened_of_perm
      refine same_outcome_bind likened ?_
      intro inner otherInner _ _ same
      have own : List.Forall₂ Choice.Alike [(.named .object : Choice φ)] [.named .object] :=
        .cons (Choice.alike_refl _) .nil
      exact .ok (likened_append (likened_singleton ⟨rfl, rfl, rfl, own⟩) same)
termination_by structural reorders => reorders

theorem resolve_later_of_reorder {types others : List (TypeSpec φ)} :
    TypesReorder types others → PlainTypes types → ∀ policy place,
      SameOutcome (List.Forall₂ Choice.Alike) (resolveLater policy place types)
        (resolveLater policy place others)
  | .nil, _ => fun _ _ => .ok .nil
  | .cons here further, plain => by
      intro policy place
      obtain ⟨first, rest⟩ := TypeSpec.forall_inline_cons_iff.mp plain
      rw [resolveLater, resolveLater]
      refine same_outcome_bind (resolve_of_reorders here first policy place) ?_
      intro choice otherChoice _ _ sameChoice
      refine same_outcome_bind (resolve_later_of_reorder further rest policy place) ?_
      intro later otherLater _ _ sameLater
      exact .ok (.cons sameChoice sameLater)
termination_by structural reorder => reorder

theorem resolve_of_reorders {type other : TypeSpec φ} :
    type.Reorders other → (∀ inner ∈ type.inline?, inner.EveryLevel Path.PlainKeys) →
      ∀ policy place,
        SameOutcome Choice.Alike (resolve policy place type) (resolve policy place other)
  | .same _, _ => fun _ _ =>
      same_outcome_trans (same_outcome_refl _) (same_outcome_refl _)
        fun _ _ _ here there => there ▸ here ▸ Choice.alike_refl _
  | .inline inside, plain => by
      intro policy place
      rw [resolve, resolve]
      refine same_outcome_bind (build_of_reorders inside (plain _ rfl) policy (some place) false) ?_
      intro shape otherShape _ _ same
      exact .ok (Choice.alike_nested same)
termination_by structural reorders => reorders

end

end Shape

def placed : Declaration Empty :=
  ⟨[("p", .nested true [] ⟨[("x", .single (.named .bigint)), ("y", .single (.named .bigint))]⟩),
    ("q", .anyOf [.named .null,
      .inline ⟨[("u", .single (.named .string)), ("v", .record false [.named .string] [])]⟩])]⟩

def placedReordered : Declaration Empty :=
  ⟨[("q", .anyOf [.named .null,
      .inline ⟨[("v", .record false [.named .string] []), ("u", .single (.named .string))]⟩]),
    ("p", .nested true [] ⟨[("y", .single (.named .bigint)), ("x", .single (.named .bigint))]⟩)]⟩

def placedValue : Value Empty :=
  .object ⟨0, 0⟩ [("p.y", .bigint 2), ("p", .object ⟨1, 1⟩ [("x", .bigint 1)]),
    ("q", .object ⟨2, 2⟩ [("u", .string "Ada")])]

theorem placed_plain : placed.EveryLevel Path.PlainKeys := by decide

theorem placed_reorders : placed.Reorders placedReordered := by
  have place : Declaration.Reorders (φ := Empty)
      ⟨[("x", .single (.named .bigint)), ("y", .single (.named .bigint))]⟩
      ⟨[("y", .single (.named .bigint)), ("x", .single (.named .bigint))]⟩ :=
    .of (.cons (.single (.same _)) (.cons (.single (.same _)) .nil)) (.swap _ _ _)
  have author : Declaration.Reorders (φ := Empty)
      ⟨[("u", .single (.named .string)), ("v", .record false [.named .string] [])]⟩
      ⟨[("v", .record false [.named .string] []), ("u", .single (.named .string))]⟩ :=
    .of (.cons (.single (.same _)) (.cons (.record (.cons (.same _) .nil)) .nil)) (.swap _ _ _)
  exact .of (.cons (.nested place)
    (.cons (.anyOf (.cons (.same _) (.cons (.inline author) .nil))) .nil)) (.swap _ _ _)

/-- Whatever the order of the members at each level, a plain declaration compiles or not, and where
it compiles the shape accepts the same values, those with dotted or empty keys among them. -/
theorem reordered_accepts_alike [Host φ] (policy : EmptyPolicy) (declaration other : Declaration φ)
    (plain : declaration.EveryLevel Path.PlainKeys) (reorders : declaration.Reorders other) :
    ((∃ shape, declaration.compile policy = .ok shape) ↔
        ∃ shape, other.compile policy = .ok shape) ∧
      ∀ shape otherShape, declaration.compile policy = .ok shape →
        other.compile policy = .ok otherShape →
        ∀ value, shape.accepts value = otherShape.accepts value := by
  have same := Shape.build_of_reorders reorders plain policy none true
  exact ok_iff_of_same_outcome same

theorem placed_accepts_alike :
    ∃ shape otherShape, placed.compile .reject = .ok shape ∧
      placedReordered.compile .reject = .ok otherShape ∧ placed.EveryLevel Path.PlainKeys ∧
      placed.Reorders placedReordered ∧ shape.accepts placedValue = true ∧
      otherShape.accepts placedValue = true := by
  have ⟨both, alike⟩ :=
    reordered_accepts_alike .reject placed placedReordered placed_plain placed_reorders
  have accepted : (match placed.compile .reject with
      | .ok shape => shape.accepts placedValue
      | .error _ => false) = true := by cbv
  cases compiled : placed.compile .reject with
  | error fault =>
      rw [compiled] at accepted
      exact absurd accepted Bool.false_ne_true
  | ok shape =>
      rw [compiled] at accepted
      obtain ⟨otherShape, otherCompiled⟩ := both.mp ⟨shape, compiled⟩
      have same := alike shape otherShape compiled otherCompiled placedValue
      exact ⟨shape, otherShape, rfl, otherCompiled, placed_plain, placed_reorders, accepted,
        same ▸ accepted⟩

end ObjectShape
