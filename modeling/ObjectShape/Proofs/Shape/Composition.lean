import ObjectShape.Memo
import ObjectShape.Proofs.Declaration.Notation
import ObjectShape.Proofs.Shape.Lenience
import ObjectShape.Proofs.Shape.Settling
import ObjectShape.Proofs.Shape.Unmerged

/-!
# Composing schemas

An object that stands for a type is compiled in place and keeps its keys in the order of their
declaration; compiled on its own first, it sorts them. The two agree up to that order, so they part
only over a path that is declared before one of its ancestors.
-/

namespace ObjectShape

set_option autoImplicit false

variable {φ : Type}

/-- The object that declares one property, its type under `$type`. -/
def Value.declaring (outer inner : ObjectRef) (key : String) (type : Value φ) : Value φ :=
  .object outer [(key, .object inner [(Control.type.key, type)])]

theorem compile_object_eq_ok_iff {policy : EmptyPolicy} {value : Value φ} {shape : Shape φ} :
    compileObject policy value = .ok shape ↔
      ∃ declaration, Declaration.Writes value declaration ∧
        declaration.compile policy = .ok shape := by
  simp only [compileObject, bind_eq_ok_iff, Declaration.writes_iff]

theorem compile_fresh_eq_ok_iff {policy : EmptyPolicy} {serial : Nat} {ref : ObjectRef}
    {fields : List (String × Value φ)} {handle : Handle φ} :
    compileFresh policy serial (.object ref fields) = .ok handle ↔
      ∃ shape, compileObject policy (.object ref fields) = .ok shape ∧ ⟨serial, shape⟩ = handle := by
  cases compiled : compileObject policy (.object ref fields) with
  | error fault => simp [compileFresh, compileWith, compiled, bind, Except.bind, Except.map]
  | ok shape =>
      simp [compileFresh, compileWith, compiled, bind, Except.bind, Except.map, pure, Except.pure]

/-- A type under `$type` makes a required property of one type. -/
theorem writes_declaring {outer inner : ObjectRef} {key : String} {type : Value φ}
    {spec : TypeSpec φ} (free : Control.owns key = false)
    (written : Declaration.WritesType type spec) :
    Declaration.Writes (Value.declaring outer inner key type) ⟨[(key, .record true [spec] [])]⟩ := by
  have unflagged : Entries.get? Control.required.key [(Control.type.key, type)] = none := by
    simp [Entries.get?, Control.key]
  have unchecked : Entries.get? Control.validators.key [(Control.type.key, type)] = none := by
    simp [Entries.get?, Control.key]
  have typed : Entries.get? Control.type.key [(Control.type.key, type)] = some type := by
    simp [Entries.get?]
  refine .object (.data free (.record (.absent unflagged) ?_ typed ?_ (.one written)) .nil)
  · rw [unchecked]
    exact .absent
  · intro other member
    have same : other = Control.type.key := List.mem_singleton.mp member
    rw [same]
    exact Control.owns_key .type

def Property.ofChoice (key : String) (choice : Choice φ) : Property φ :=
  { path := key, required := true, choices := [choice], validators := [] }

theorem compile_declaring {policy : EmptyPolicy} {outer inner : ObjectRef} {key : String}
    {type : Value φ} {spec : TypeSpec φ} {choice : Choice φ} (free : Control.owns key = false)
    (written : Declaration.WritesType type spec) (resolved : Shape.resolve policy key spec = .ok choice) :
    compileObject policy (Value.declaring outer inner key type) =
      .ok (Shape.ofProperties true [Property.ofChoice key choice]) := by
  rw [compile_object_eq_ok_iff]
  refine ⟨_, writes_declaring free written, ?_⟩
  have place : Path.join none key = key := rfl
  simp [Declaration.compile, Shape.build, Shape.layOut, Shape.layOutMember, Shape.resolveAll,
    Shape.resolveLater, place, resolved, bind, Except.bind, pure, Except.pure, Property.ofChoice]

/-- Under a control key nothing is declared. -/
theorem compile_declaring_control {policy : EmptyPolicy} {outer inner : ObjectRef} {key : String}
    (owned : Control.owns key = true) (type : Value φ) :
    compileObject policy (Value.declaring outer inner key type) =
      Declaration.empty.compile policy := by
  simp [compileObject, Value.declaring, Declaration.ofValue, Declaration.readMembers, owned,
    Declaration.empty, bind, Except.bind, pure, Except.pure]

section Verdicts

variable [Host φ]

def Value.partUnder (path : String) (value : Value φ) : Value φ :=
  partAt (value.outline (Path.depth path)) path

theorem not_undefined_of_accepts {shape : Shape φ} {value : Value φ}
    (accepted : shape.accepts value = true) : value.isUndefined = false := by
  rw [Shape.accepts_eq, Bool.and_eq_true, Bool.and_eq_true] at accepted
  exact not_undefined_of_object_like accepted.1.2

/-- A property whose only choice is a shape asks the shape. -/
theorem single_choice_accepts {key : String} {choice : Choice φ} {shape : Shape φ}
    (whole : choice.typeName? = none)
    (asks : ∀ value, choice.accepts value = shape.accepts value) (value : Value φ) :
    (Shape.ofProperties true [Property.ofChoice key choice]).accepts value =
      (value.isObjectLike && shape.accepts (value.partUnder key)) := by
  have depth : (Shape.ofProperties true [Property.ofChoice key choice]).depth = Path.depth key := by
    simp [Shape.ofProperties, Shape.collect, Entries.upsert, Entries.keys, Property.ofChoice]
  have settled : (Property.ofChoice key choice).settle.Meets (value.partUnder key) ↔
      shape.accepts (value.partUnder key) = true := by
    have matched : (Property.ofChoice key choice).Matches (value.partUnder key) ↔
        shape.accepts (value.partUnder key) = true := by
      simp [Property.Matches, Property.ofChoice, whole, isConfirmed, asks]
    have required : (Property.ofChoice key choice).required = true := rfl
    rw [Property.settle_meets_iff, matched, required]
    constructor
    · intro met
      exact met.1.resolve_right fun absent => Bool.noConfusion absent.1
    · exact fun accepted => ⟨.inl accepted, .inl (not_undefined_of_accepts accepted)⟩
  rw [Bool.eq_iff_iff, Shape.assembled_accepts_iff true (List.pairwise_singleton _ _) value,
    List.forall_mem_singleton, Shape.settled_by_singleton, depth, Bool.and_eq_true]
  exact and_congr_right fun _ => settled

theorem unsorted_accepts_iff (declared : List (Property φ)) (value : Value φ) :
    (Shape.ofProperties false declared).accepts value = true ↔
      value.isObjectLike = true ∧
        Shape.SettledInTurn (Shape.ofProperties true declared).properties
          (value.outline (Shape.ofProperties true declared).depth)
          (Entries.keys (Shape.ofProperties true declared).properties) := by
  rw [Shape.accepts_iff_settled_in_turn _ value fun key member => Shape.property_of_key member]
  exact and_iff_right rfl

theorem sorted_accepts_iff (declared : List (Property φ)) (value : Value φ) :
    (Shape.ofProperties true declared).accepts value = true ↔
      value.isObjectLike = true ∧
        ∀ path ∈ Entries.keys (Shape.ofProperties true declared).properties,
          Shape.SettledAmong (Shape.ofProperties true declared).properties
            (value.outline (Shape.ofProperties true declared).depth)
            (Entries.keys (Shape.ofProperties true declared).properties) path := by
  have same := Shape.keys_of_properties_perm true declared
  rw [Shape.accepts_iff_settled_among (Shape.ofProperties true declared) value
    (fun key member => Shape.property_of_key member) (Shape.sort_keys_ancestors_first _)]
  apply (and_iff_right rfl).trans
  apply and_congr_right
  intro _
  constructor
  · intro settled path member
    exact Shape.settled_among_mono same.subset (settled path (same.mem_iff.mpr member))
  · intro settled path member
    exact Shape.settled_among_mono same.symm.subset (settled path (same.mem_iff.mp member))

/-- Unsorted keys accept what sorted ones accept, if it is settled in turn as well. -/
theorem unsorted_accepts_iff_sorted (declared : List (Property φ)) (value : Value φ) :
    (Shape.ofProperties false declared).accepts value = true ↔
      (Shape.ofProperties true declared).accepts value = true ∧
        Shape.SettledInTurn (Shape.ofProperties true declared).properties
          (value.outline (Shape.ofProperties true declared).depth)
          (Entries.keys (Shape.ofProperties true declared).properties) := by
  rw [unsorted_accepts_iff, sorted_accepts_iff]
  constructor
  · intro accepted
    exact ⟨⟨accepted.1, Shape.settled_among_of_in_turn accepted.2⟩, accepted.2⟩
  · exact fun accepted => ⟨accepted.1.1, accepted.2⟩

theorem settled_in_turn_of_ancestors_first {declared : List (Property φ)} {value : Value φ}
    (ordered : Shape.AncestorsFirst
      (Entries.keys (Shape.ofProperties true declared).properties))
    (accepted : (Shape.ofProperties true declared).accepts value = true) :
    Shape.SettledInTurn (Shape.ofProperties true declared).properties
      (value.outline (Shape.ofProperties true declared).depth)
      (Entries.keys (Shape.ofProperties true declared).properties) := by
  rw [sorted_accepts_iff] at accepted
  exact (Shape.settled_in_turn_iff ordered).mpr accepted.2

def verdict (policy : EmptyPolicy) (schema value : Value φ) : Except SchemaFault Bool :=
  (compileObject policy schema).map fun shape => shape.accepts value

omit [Host φ] in
/-- What a compiled object was laid out as. -/
theorem laid_out_of_compiled {serial : Nat} {ref : ObjectRef} {fields : List (String × Value φ)}
    {handle : Handle φ} (made : compileFresh .reject serial (.object ref fields) = .ok handle) :
    ∃ members declared, Declaration.WritesMembers fields members ∧ members ≠ [] ∧
      Shape.layOut .reject none none members = .ok declared ∧
      handle.shape = Shape.ofProperties true declared := by
  obtain ⟨shape, compiled, rfl⟩ := compile_fresh_eq_ok_iff.mp made
  obtain ⟨declaration, written, built⟩ := compile_object_eq_ok_iff.mp compiled
  cases written with
  | @object _ _ members inside =>
      rcases Shape.build_cases built with ⟨_, rejected, _⟩ | ⟨filled, declared, laidOut, assembled⟩
      · exact absurd rejected (by decide)
      · exact ⟨members, declared, inside, filled, laidOut, assembled⟩

omit [Host φ] in
theorem resolve_inline {members : List (String × Member φ)} {declared : List (Property φ)}
    (filled : members ≠ []) (laidOut : Shape.layOut .reject none none members = .ok declared)
    (policy : EmptyPolicy) (place : String) :
    Shape.resolve policy place (.inline ⟨members⟩) =
      .ok (.nested (Shape.ofProperties false declared)) := by
  cases members with
  | nil => exact absurd rfl filled
  | cons first rest =>
      have relabelled := (Shape.lay_out_relaxes (first :: rest) policy none (some place) none).yields
        declared laidOut
      simp [Shape.resolve, Shape.build, relabelled, bind, Except.bind, pure, Except.pure]

theorem verdict_inline {ref outer inner : ObjectRef} {fields : List (String × Value φ)}
    {members : List (String × Member φ)} {declared : List (Property φ)} {key : String}
    (free : Control.owns key = false) (written : Declaration.WritesMembers fields members)
    (filled : members ≠ []) (laidOut : Shape.layOut .reject none none members = .ok declared)
    (uncontrolled : ∀ control : Control, Entries.get? control.key fields = none)
    (policy : EmptyPolicy) (value : Value φ) :
    verdict policy (.declaring outer inner key (.object ref fields)) value =
      .ok (value.isObjectLike &&
        (Shape.ofProperties false declared).accepts (value.partUnder key)) := by
  have someField : fields ≠ [] := by
    intro empty
    rw [empty] at written
    cases written
    exact filled rfl
  rw [verdict, compile_declaring free (.inline someField uncontrolled written)
    (resolve_inline filled laidOut policy key)]
  exact congrArg Except.ok (single_choice_accepts rfl (fun _ => rfl) value)

theorem verdict_schematic {outer inner : ObjectRef} {key : String}
    (free : Control.owns key = false) (handle : Handle φ) (policy : EmptyPolicy) (value : Value φ) :
    verdict policy (.declaring outer inner key (.schematic handle)) value =
      .ok (value.isObjectLike && handle.shape.accepts (value.partUnder key)) := by
  obtain ⟨serial, shape⟩ := handle
  rw [verdict, compile_declaring free (.schematic ⟨serial, shape⟩) rfl]
  exact congrArg Except.ok (single_choice_accepts rfl (fun _ => rfl) value)

theorem verdict_control (outer inner : ObjectRef) {key : String}
    (owned : Control.owns key = true) (policy : EmptyPolicy) (type value : Value φ) :
    verdict policy (.declaring outer inner key type) value ≠ .ok true := by
  rw [verdict, compile_declaring_control owned]
  cases policy <;> simp [Declaration.compile, Declaration.empty, Shape.build, Except.map,
    Shape.accepts_eq, Shape.disabled]

end Verdicts

def childFirstFields : List (String × Value Empty) :=
  [("a.b", .string "string"), ("a", .string "bigint")]

def childFirstHandle : Handle Empty :=
  { serial := 0
    shape :=
      { properties :=
          [("a.b", ⟨"a.b", true, [.named .string], []⟩), ("a", ⟨"a", true, [.named .bigint], []⟩)]
        keys := ["a", "a.b"]
        enabled := true
        depth := 2 } }

def childFirstInline : Value Empty :=
  .declaring ⟨1, 1⟩ ⟨2, 2⟩ "p" (.object ⟨0, 0⟩ childFirstFields)

def childFirstComposed : Value Empty :=
  .declaring ⟨1, 1⟩ ⟨2, 2⟩ "p" (.schematic childFirstHandle)

/-- The part at `a` settles `a.b`, if it is looked at first. -/
def childFirstValue : Value Empty :=
  .object ⟨3, 3⟩ [("p", .object ⟨4, 4⟩ [("a", .bigint 1)])]

theorem child_first_made :
    compileFresh .reject 0 (.object ⟨0, 0⟩ childFirstFields) = .ok childFirstHandle := by
  cbv

theorem child_first_uncontrolled (control : Control) :
    Entries.get? control.key childFirstFields = none := by
  cases control <;> decide

/-- An object in place of a type accepts no more than the schematic compiled from it, and the two
part exactly over a declared path that nothing declared before it settles. -/
theorem inline_and_schematic_verdicts [Host φ] (policy : EmptyPolicy) (serial : Nat)
    (ref outer inner : ObjectRef) (fields : List (String × Value φ)) (handle : Handle φ)
    (key : String) (value : Value φ)
    (made : compileFresh .reject serial (.object ref fields) = .ok handle)
    (uncontrolled : ∀ control : Control, Entries.get? control.key fields = none) :
    (verdict policy (.declaring outer inner key (.object ref fields)) value = .ok true →
        verdict policy (.declaring outer inner key (.schematic handle)) value = .ok true) ∧
      (verdict policy (.declaring outer inner key (.object ref fields)) value ≠
          verdict policy (.declaring outer inner key (.schematic handle)) value ↔
        verdict policy (.declaring outer inner key (.schematic handle)) value = .ok true ∧
          ¬ Shape.SettledInTurn handle.shape.properties
            ((value.partUnder key).outline handle.shape.depth)
            (Entries.keys handle.shape.properties)) ∧
      (Shape.AncestorsFirst (Entries.keys handle.shape.properties) →
        verdict policy (.declaring outer inner key (.object ref fields)) value =
          verdict policy (.declaring outer inner key (.schematic handle)) value) := by
  cases owned : Control.owns key with
  | true =>
      have rejected := verdict_control outer inner owned policy (.schematic handle) value
      have same : verdict policy (.declaring outer inner key (.object ref fields)) value =
          verdict policy (.declaring outer inner key (.schematic handle)) value := by
        rw [verdict, verdict, compile_declaring_control owned, compile_declaring_control owned]
      simp [same, rejected]
  | false =>
      obtain ⟨members, declared, written, filled, laidOut, assembled⟩ := laid_out_of_compiled made
      -- Both routes compile the same properties; only the order of the keys tells them apart.
      have agree := unsorted_accepts_iff_sorted declared (value.partUnder key)
      have inTurn := @settled_in_turn_of_ancestors_first _ _ declared (value.partUnder key)
      rw [verdict_inline owned written filled laidOut uncontrolled, verdict_schematic owned,
        assembled]
      cases value.isObjectLike with
      | false => simp
      | true =>
          simp only [Bool.true_and, Except.ok.injEq, ne_eq]
          constructor
          · exact fun accepted => (agree.mp accepted).1
          · constructor
            · rw [Bool.eq_iff_iff, agree, and_iff_left_iff_imp, Classical.not_imp]
            · intro ordered
              rw [Bool.eq_iff_iff, agree]
              exact and_iff_left_iff_imp.mpr (inTurn ordered)

theorem child_first_verdicts :
    compileFresh .reject 0 (.object ⟨0, 0⟩ childFirstFields) = .ok childFirstHandle ∧
      (∀ control : Control, Entries.get? control.key childFirstFields = none) ∧
      (verdict .reject childFirstInline childFirstValue = .ok true →
        verdict .reject childFirstComposed childFirstValue = .ok true) ∧
      (verdict .reject childFirstInline childFirstValue ≠
          verdict .reject childFirstComposed childFirstValue ↔
        verdict .reject childFirstComposed childFirstValue = .ok true ∧
          ¬ Shape.SettledInTurn childFirstHandle.shape.properties
            ((childFirstValue.partUnder "p").outline childFirstHandle.shape.depth)
            (Entries.keys childFirstHandle.shape.properties)) ∧
      (Shape.AncestorsFirst (Entries.keys childFirstHandle.shape.properties) →
        verdict .reject childFirstInline childFirstValue =
          verdict .reject childFirstComposed childFirstValue) :=
  ⟨child_first_made, child_first_uncontrolled,
    inline_and_schematic_verdicts .reject 0 ⟨0, 0⟩ ⟨1, 1⟩ ⟨2, 2⟩ childFirstFields childFirstHandle
      "p" childFirstValue child_first_made child_first_uncontrolled⟩

/-- The two schemas do part. -/
theorem child_first_verdicts_differ :
    compileFresh .reject 0 (.object ⟨0, 0⟩ childFirstFields) = .ok childFirstHandle ∧
      childFirstFields ≠ [] ∧
      (∀ control : Control, Entries.get? control.key childFirstFields = none) ∧
      verdict .reject childFirstInline childFirstValue = .ok false ∧
      verdict .reject childFirstComposed childFirstValue = .ok true := by
  refine ⟨child_first_made, by decide, child_first_uncontrolled, ?_, ?_⟩
  · cbv
  · cbv

end ObjectShape
