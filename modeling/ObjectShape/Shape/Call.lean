import ObjectShape.Value.Basic

/-!
# Calls of functions

Checking a value calls the functions of the schema. `Traced` is a result together with the calls
made on the way to it, in order, each with the place in the schema that it was made for.
-/

namespace ObjectShape

set_option autoImplicit false

/-- Says how the handles of outside predicates are run. A predicate that breaks off gives no answer.
-/
class Host (φ : Type) where
  answer : φ → Value φ → Option Bool

/-- There are no handles, so nothing is run. -/
instance : Host Empty where
  answer handle := nomatch handle

variable {φ : Type}

/-- Whether the function accepts the value. A constructor accepts its instances, and a predicate
that gives no answer accepts nothing. -/
def Function.test [Host φ] (function : Function φ) (value : Value φ) : Bool :=
  match function.callable with
  | .predicate _ handle => (Host.answer handle value).getD false
  | .guard expected => value.isInstanceOf expected
  | .constructor made => value.isInstanceOf made

/-- What a function was called for: as the choice at an index, or as the validator at a position
among those of the type that the choice at an index names. -/
inductive Role where
  | choice (index : Nat)
  | validator (index : Nat) (type : BasicType) (position : Nat)
  deriving DecidableEq, Repr, Inhabited

structure Call (φ : Type) where
  /-- The properties and choices of the enclosing shapes, outermost first. -/
  within : List (String × Nat)
  path : String
  role : Role
  function : Function φ
  subject : Value φ

structure Traced (φ α : Type) where
  result : α
  calls : List (Call φ)

namespace Traced

variable {α β : Type}

def pure (result : α) : Traced φ α :=
  { result, calls := [] }

def bind (first : Traced φ α) (next : α → Traced φ β) : Traced φ β :=
  let second := next first.result
  { result := second.result, calls := first.calls ++ second.calls }

instance : Monad (Traced φ) where
  pure := pure
  bind := bind

def call [Host φ] (path : String) (role : Role) (function : Function φ) (subject : Value φ) :
    Traced φ Bool :=
  { result := function.test subject
    calls := [{ within := [], path, role, function, subject }] }

/-- The same calls as made for a shape that is itself the choice at the index of a property. -/
def inside (path : String) (index : Nat) (traced : Traced φ α) : Traced φ α :=
  { traced with
    calls := traced.calls.map fun call => { call with within := (path, index) :: call.within } }

@[simp] theorem result_pure (result : α) : (Pure.pure result : Traced φ α).result = result := rfl

@[simp] theorem calls_pure (result : α) : (Pure.pure result : Traced φ α).calls = [] := rfl

@[simp] theorem result_bind (first : Traced φ α) (next : α → Traced φ β) :
    (first >>= next).result = (next first.result).result := rfl

@[simp] theorem calls_bind (first : Traced φ α) (next : α → Traced φ β) :
    (first >>= next).calls = first.calls ++ (next first.result).calls := rfl

@[simp] theorem result_inside (path : String) (index : Nat) (traced : Traced φ α) :
    (traced.inside path index).result = traced.result := rfl

end Traced

end ObjectShape
