import ObjectShape.Guard
import ObjectShape.Memo
import ObjectShape.Proofs.Class.Lineage
import ObjectShape.Proofs.Shape.Merging

/-!
# Checks for instances

A value can be checked for being an instance of a class by a guard, by the constructor used as a
test, by the predicate made from the constructor, and by a property whose only type is one of these
functions. A constructor becomes a choice of its own and the predicate one of the functions that are
called, but all checks give the same answer.
-/

namespace ObjectShape

set_option autoImplicit false

variable {φ : Type}

/-- The functions that test for instances of a class: its constructor, and the predicate made from
the constructor. -/
inductive TestsFor (expected : Class) : Function φ → Prop where
  | constructor (serial : Nat) : TestsFor expected { serial, callable := .constructor expected }
  | predicate {serial own : Nat} {function : Function φ}
      (made : Function.instanceTest serial
        (.function { serial := own, callable := .constructor expected } : Value φ) = .ok function) :
      TestsFor expected function

def Function.choice (function : Function φ) : Choice φ :=
  match function.class? with
  | some made => .instanceOf made
  | none => .predicate function

theorem resolve_of_function (policy : EmptyPolicy) (place : String) (function : Function φ) :
    Shape.resolve policy place (TypeSpec.ofFunction function) = .ok function.choice := by
  unfold TypeSpec.ofFunction Function.choice
  cases function.class? with
  | some made => rfl
  | none => rfl

theorem type_name_of_function (function : Function φ) : function.choice.typeName? = none := by
  unfold Function.choice
  cases function.class? with
  | some made => rfl
  | none => rfl

def Declaration.ofFunction (key : String) (function : Function φ) : Declaration φ :=
  ⟨[(key, .single (TypeSpec.ofFunction function))]⟩

def Property.ofFunction (key : String) (function : Function φ) : Property φ :=
  { path := key, required := true, choices := [function.choice], validators := [] }

theorem compile_of_function (policy : EmptyPolicy) (key : String) (function : Function φ) :
    (Declaration.ofFunction key function).compile policy =
      .ok (Shape.ofProperties true [Property.ofFunction key function]) := by
  have place : Path.join none key = key := rfl
  simp [Declaration.ofFunction, Declaration.compile, Shape.build, Shape.layOut, Shape.layOutMember,
    place, resolve_of_function, bind, Except.bind, pure, Except.pure, Property.ofFunction]

theorem compile_object_of_function (policy : EmptyPolicy) {key : String}
    (free : Control.owns key = false) (ref : ObjectRef) (function : Function φ) :
    compileObject policy (.object ref [(key, .function function)]) =
      (Declaration.ofFunction key function).compile policy := by
  have read : Declaration.ofValue (.object ref [(key, .function function)]) =
      .ok (Declaration.ofFunction key function) := by
    simp [Declaration.ofValue, Declaration.readMembers, Declaration.readMember,
      Declaration.plainType, free, Declaration.ofFunction, bind, Except.bind, pure, Except.pure]
  rw [compileObject, read]
  rfl

theorem property_of_function (key : String) (function : Function φ) :
    (Shape.ofProperties true [Property.ofFunction key function]).property? key =
      some (Property.ofFunction key function) := by
  have merged : Shape.mergedAt key [Property.ofFunction key function] =
      some (Property.ofFunction key function) := by
    simp [Shape.mergedAt, Shape.declaredAt, Property.ofFunction]
  rw [Shape.property_at, merged]
  simp [Property.settle, Property.acceptsUndefined, Property.ofFunction, type_name_of_function]

theorem is_instance_of_iff (expected : Class) (value : Value φ) :
    value.isInstanceOf expected = true ↔
      ∃ made fields, value = .instanceOf made fields ∧ Class.isA expected made = true := by
  cases value with
  | instanceOf made fields => simp [Value.isInstanceOf]
  | _ => simp [Value.isInstanceOf]

/-- If the value is an instance, its class is among the given ones. -/
def MadeByOneOf (classes : List Class) (value : Value φ) : Prop :=
  ∀ made fields, value = .instanceOf made fields → made ∈ classes

/-- What accepts the instances of a class accepts those of the classes that inherit from it. -/
theorem is_instance_of_ancestor {classes : List Class} (declared : Class.Declared classes)
    {ancestor heir : Class} (ancestorMember : ancestor ∈ classes) (heirMember : heir ∈ classes)
    (inherits : Class.isA ancestor heir = true) {value : Value φ}
    (among : MadeByOneOf classes value) (accepted : value.isInstanceOf heir = true) :
    value.isInstanceOf ancestor = true := by
  obtain ⟨made, fields, rfl, below⟩ := (is_instance_of_iff heir value).mp accepted
  exact (Class.ordered_by_descent declared).trans ancestor ancestorMember heir heirMember made
    (among made fields rfl) inherits below

section Checks

variable [Host φ]

theorem function_choice_accepts (function : Function φ) (value : Value φ) :
    function.choice.accepts value = function.test value := by
  obtain ⟨serial, callable⟩ := function
  cases callable <;> rfl

theorem test_eq_is_instance_of {expected : Class} {function : Function φ}
    (tests : TestsFor expected function) (value : Value φ) :
    function.test value = value.isInstanceOf expected := by
  cases tests with
  | constructor serial => rfl
  | predicate made =>
      obtain rfl := Except.ok.inj made
      rfl

/-- A property with the function as its only choice accepts what the function accepts, whatever
validators it has. -/
theorem matching_of_function {property : Property φ} {function : Function φ}
    (only : property.choices = [function.choice]) (value : Value φ) :
    (property.matching value).isSome = function.test value := by
  rw [Property.matching_eq_find, only, List.find?_singleton, function_choice_accepts,
    type_name_of_function]
  cases function.test value <;> rfl

/-- The ways to check a value for being an instance of a class. -/
inductive InstanceCheck (expected : Class) : (Value φ → Bool) → Prop where
  | guard : InstanceCheck expected (InstanceGuard.mk expected).accepts
  | function {function : Function φ} (tests : TestsFor expected function) :
      InstanceCheck expected function.test
  /-- A compiled property whose only choice is what such a function becomes as a type. -/
  | property {function : Function φ} {policy : EmptyPolicy} {declaration : Declaration φ}
      {shape : Shape φ} {path place : String} {property : Property φ} {choice : Choice φ}
      (tests : TestsFor expected function) (compiled : declaration.compile policy = .ok shape)
      (found : shape.property? path = some property)
      (resolved : Shape.resolve policy place (TypeSpec.ofFunction function) = .ok choice)
      (only : property.choices = [choice]) :
      InstanceCheck expected fun value => (property.matching value).isSome

theorem instance_check_eq {expected : Class} {check : Value φ → Bool}
    (checks : InstanceCheck expected check) (value : Value φ) :
    check value = value.isInstanceOf expected := by
  cases checks with
  | guard => rfl
  | function tests => exact test_eq_is_instance_of tests value
  | property tests _ _ resolved only =>
      rw [resolve_of_function] at resolved
      obtain rfl := Except.ok.inj resolved
      exact (matching_of_function only value).trans (test_eq_is_instance_of tests value)

/-- Among the classes that declarations make, inheritance is a partial order by identity, and the
classes that one inherits from are comparable. All ways to check a value for being an instance of a
class agree: they accept the instances of the class and of those that inherit from it. Every function
that tests for instances can be the only type of a property, declared or written as an object. What a
check for a class accepts, a check for a class that it inherits from accepts. -/
theorem instance_checks_agree {classes : List Class} (declared : Class.Declared classes) :
    Class.OrderedByDescent classes ∧
      (∀ (expected : Class) (check : Value φ → Bool), InstanceCheck expected check →
        ∀ value, check value = true ↔
          ∃ made fields, value = .instanceOf made fields ∧ Class.isA expected made = true) ∧
      (∀ (expected : Class) (serial own : Nat), ∃ function : Function φ,
        Function.instanceTest serial
          (.function { serial := own, callable := .constructor expected } : Value φ) =
            .ok function) ∧
      (∀ (expected : Class) (function : Function φ), TestsFor expected function →
        ∀ policy key, ∃ shape property,
          (Declaration.ofFunction key function).compile policy = .ok shape ∧
            (Control.owns key = false → ∀ ref,
              compileObject policy (.object ref [(key, .function function)]) = .ok shape) ∧
            shape.property? key = some property ∧
            InstanceCheck expected fun value => (property.matching value).isSome) ∧
      ∀ ancestor ∈ classes, ∀ heir ∈ classes, Class.isA ancestor heir = true →
        ∀ check heirCheck : Value φ → Bool, InstanceCheck ancestor check →
          InstanceCheck heir heirCheck → ∀ value, MadeByOneOf classes value →
            heirCheck value = true → check value = true := by
  refine ⟨Class.ordered_by_descent declared, ?_, ?_, ?_, ?_⟩
  · intro expected check checks value
    rw [instance_check_eq checks, is_instance_of_iff]
  · intro expected serial own
    exact ⟨_, rfl⟩
  · intro expected function tests policy key
    have compiled := compile_of_function policy key function
    have found := property_of_function key function
    refine ⟨_, _, compiled, ?_, found, ?_⟩
    · intro free ref
      rw [compile_object_of_function policy free ref function, compiled]
    · exact .property tests compiled found (resolve_of_function policy key function) rfl
  · intro ancestor ancestorMember heir heirMember inherits check heirCheck checks heirChecks
      value among accepted
    rw [instance_check_eq heirChecks] at accepted
    rw [instance_check_eq checks]
    exact is_instance_of_ancestor declared ancestorMember heirMember inherits among accepted

end Checks

/-- Three classes of one name, of which only the second inherits from another. -/
def namesakes : List Class :=
  [.root 0 "Node", .sub 1 "Node" (.root 0 "Node"), .root 2 "Node"]

theorem namesakes_declared : Class.Declared namesakes :=
  have first := Class.Declared.root "Node" .none
  .root "Node" (.sub "Node" first (List.mem_singleton.mpr rfl))

theorem namesakes_checks_agree :
    Class.Declared namesakes ∧ Class.OrderedByDescent namesakes ∧
      ∀ check : Value Empty → Bool, InstanceCheck (.root 0 "Node") check →
        check (.instanceOf (.sub 1 "Node" (.root 0 "Node")) []) = true ∧
          check (.instanceOf (.root 2 "Node") []) = false := by
  obtain ⟨ordered, agree, _⟩ := instance_checks_agree (φ := Empty) namesakes_declared
  refine ⟨namesakes_declared, ordered, ?_⟩
  intro check checks
  constructor
  · exact (agree _ check checks _).mpr ⟨_, _, rfl, by decide⟩
  · rw [Bool.eq_false_iff]
    intro accepted
    obtain ⟨made, fields, same, inherits⟩ := (agree _ check checks _).mp accepted
    obtain ⟨rfl, rfl⟩ := Value.instanceOf.inj same
    exact absurd inherits (by decide)

end ObjectShape
