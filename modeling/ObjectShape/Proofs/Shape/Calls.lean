import ObjectShape.Proofs.Shape.WellFormed

/-!
# Which functions are called

Checking a value calls the functions of a shape at certain moments only. A call is due at a place:
the number of its key among the keys, the number of its choice, and the number of its validator; a
call that an inner shape makes has its place there behind the place of the choice. What has to be
known about everything before a place is said with it. The log of a check consists of due calls, at
places that ascend, so nothing is called twice, too early or after the check is decided.
-/

namespace ObjectShape

set_option autoImplicit false

variable {φ : Type} [Host φ]

namespace Shape

/-- None of the keys has failed: each that has a property is settled by those before it, or met. -/
def Unfailed (properties : List (String × Property φ)) (outline : List (String × Value φ))
    (keys : List String) : Prop :=
  ∀ earlier key, (earlier ++ [key]) <+: keys → (Entries.get? key properties).isSome = true →
    SettledAmong properties outline earlier key

/-- The walk over the keys comes to look at the part under the key, past the earlier keys. -/
structure Arrives (shape : Shape φ) (value : Value φ) (earlier : List String) (key : String)
    (property : Property φ) : Prop where
  enabled : shape.enabled = true
  objectLike : value.isObjectLike = true
  listed : (earlier ++ [key]) <+: shape.keys
  found : shape.property? key = some property
  unfailed : Unfailed shape.properties (value.outline shape.depth) earlier
  uncovered : ∀ above ∈ earlier, Path.isBelow key above = true →
    ¬ CoversAt shape.properties (value.outline shape.depth) above
  present : property.required = true →
    (Value.partAt (value.outline shape.depth) key).isUndefined = false

end Shape

def Property.Refuses (property : Property φ) (part : Value φ) (choice : Choice φ) : Prop :=
  (choice.accepts part && isConfirmed property.validators choice.typeName? part) = false

mutual

/-- The shape asks for the call when the value is checked, at the place. -/
inductive Shape.Asks : Shape φ → Value φ → List Nat → Call φ → Prop where
  | key {shape : Shape φ} {value : Value φ} {earlier : List String} {key : String}
      {property : Property φ} {place : List Nat} {call : Call φ}
      (arrives : shape.Arrives value earlier key property)
      (asks : property.Asks (Value.partAt (value.outline shape.depth) key) place call) :
      Shape.Asks shape value (earlier.length :: place) call

inductive Property.Asks : Property φ → Value φ → List Nat → Call φ → Prop where
  | predicate {property : Property φ} {part : Value φ} {before after : List (Choice φ)}
      {function : Function φ} (listed : property.choices = before ++ .predicate function :: after)
      (refused : ∀ choice ∈ before, property.Refuses part choice) :
      Property.Asks property part [before.length]
        { within := [], path := property.path, role := .choice before.length, function,
          subject := part }
  | validator {property : Property φ} {part : Value φ} {before after : List (Choice φ)}
      {type : BasicType} {function : Function φ} {front back : List (Function φ)}
      (listed : property.choices = before ++ .named type :: after)
      (refused : ∀ choice ∈ before, property.Refuses part choice)
      (accepted : type.accepts part = true)
      (registered : property.validatorsOf (.named type) = front ++ function :: back)
      (confirmed : ∀ other ∈ front, other.test part = true) :
      Property.Asks property part [before.length, front.length]
        { within := [], path := property.path,
          role := .validator before.length type front.length, function, subject := part }
  | inside {property : Property φ} {part : Value φ} {before after : List (Choice φ)}
      {choice : Choice φ} {inner : Shape φ} {place : List Nat} {call : Call φ}
      (listed : property.choices = before ++ choice :: after)
      (refused : ∀ other ∈ before, property.Refuses part other)
      (whole : choice.inner? = some inner) (asks : Shape.Asks inner part place call) :
      Property.Asks property part (before.length :: place)
        { call with within := (property.path, before.length) :: call.within }

end

/-- Each call is due at a place, and the places ascend. -/
def Ascend (due : List Nat → Call φ → Prop) (calls : List (Call φ)) : Prop :=
  ∃ places, List.Forall₂ due places calls ∧ places.Pairwise (· < ·)

def AscendFrom (low : Nat) (due : List Nat → Call φ → Prop) (calls : List (Call φ)) : Prop :=
  ∃ places, List.Forall₂ due places calls ∧ places.Pairwise (· < ·) ∧
    ∀ place ∈ places, ∃ number rest, place = number :: rest ∧ low ≤ number

section Ascending

omit [Host φ]

variable {due : List Nat → Call φ → Prop} {low : Nat} {calls later : List (Call φ)}

theorem ascend_nil : Ascend due ([] : List (Call φ)) :=
  ⟨[], .nil, .nil⟩

theorem ascend_singleton {place : List Nat} {call : Call φ} (asked : due place call) :
    Ascend due [call] :=
  ⟨[place], .cons asked .nil, List.pairwise_singleton _ _⟩

theorem ascend_from_nil : AscendFrom low due ([] : List (Call φ)) :=
  ⟨[], .nil, .nil, by simp⟩

theorem AscendFrom.ascend (ordered : AscendFrom low due calls) : Ascend due calls := by
  obtain ⟨places, each, ascending, _⟩ := ordered
  exact ⟨places, each, ascending⟩

theorem AscendFrom.mono {lower : Nat} (bound : lower ≤ low) (ordered : AscendFrom low due calls) :
    AscendFrom lower due calls := by
  obtain ⟨places, each, ascending, above⟩ := ordered
  refine ⟨places, each, ascending, fun place member => ?_⟩
  obtain ⟨number, rest, same, higher⟩ := above place member
  exact ⟨number, rest, same, bound.trans higher⟩

/-- The calls of one number come before those of the numbers above it. -/
theorem ascend_from_append (here : Ascend (fun place => due (low :: place)) calls)
    (further : AscendFrom (low + 1) due later) : AscendFrom low due (calls ++ later) := by
  obtain ⟨places, each, ascending⟩ := here
  obtain ⟨others, eachLater, ascendingLater, above⟩ := further
  refine ⟨places.map (low :: ·) ++ others, ?_, ?_, ?_⟩
  · exact List.rel_append (List.forall₂_map_left_iff.mpr each) eachLater
  · rw [List.pairwise_append, List.pairwise_map]
    refine ⟨ascending.imp fun less => List.cons_lt_cons_self.mpr less, ascendingLater, ?_⟩
    intro place member other among
    obtain ⟨tail, _, rfl⟩ := List.mem_map.mp member
    obtain ⟨number, rest, rfl, higher⟩ := above other among
    exact List.Lex.rel (Nat.lt_of_succ_le higher)
  · intro place member
    rcases List.mem_append.mp member with own | other
    · obtain ⟨tail, _, rfl⟩ := List.mem_map.mp own
      exact ⟨low, tail, rfl, Nat.le_refl low⟩
    · obtain ⟨number, rest, same, higher⟩ := above place other
      exact ⟨number, rest, same, by omega⟩

theorem Ascend.map {further : List Nat → Call φ → Prop} {change : Call φ → Call φ}
    (asked : ∀ place call, due place call → further place (change call))
    (ordered : Ascend due calls) : Ascend further (calls.map change) := by
  obtain ⟨places, each, ascending⟩ := ordered
  exact ⟨places, List.forall₂_map_right_iff.mpr (each.imp asked), ascending⟩

end Ascending

/-- The validators of a type name are asked one after the other, as long as they accept. -/
theorem validators_ascend {property : Property φ} {part : Value φ} {before after : List (Choice φ)}
    {type : BasicType} (listed : property.choices = before ++ .named type :: after)
    (refused : ∀ choice ∈ before, property.Refuses part choice) (accepted : type.accepts part = true)
    {front functions : List (Function φ)}
    (registered : property.validatorsOf (.named type) = front ++ functions)
    (confirmed : ∀ other ∈ front, other.test part = true) :
    AscendFrom front.length (fun place => property.Asks part (before.length :: place))
      (runValidators property.path before.length type part front.length functions).calls := by
  induction functions generalizing front with
  | nil => exact ascend_from_nil
  | cons function rest ih =>
      rw [runValidators, Traced.calls_bind]
      refine ascend_from_append
        (ascend_singleton (.validator listed refused accepted registered confirmed)) ?_
      cases passed : function.test part with
      | false => simpa [Traced.call, passed] using ascend_from_nil
      | true =>
          have extended : property.validatorsOf (.named type) = (front ++ [function]) ++ rest := by
            rw [registered, List.append_assoc, List.singleton_append]
          have all : ∀ other ∈ front ++ [function], other.test part = true := by
            intro other member
            rcases List.mem_append.mp member with earlier | last
            · exact confirmed other earlier
            · exact List.mem_singleton.mp last ▸ passed
          simpa [Traced.call, passed] using ih extended all

def confirmingCalls (path : String) (index : Nat) (validators : List (BasicType × List (Function φ)))
    (part : Value φ) (choice : Choice φ) : List (Call φ) :=
  match choice.typeName? with
  | some type =>
      if choice.accepts part then
        (runValidators path index type part 0 ((Entries.get? type validators).getD [])).calls
      else []
  | none => []

theorem first_accepting_calls_cons (path : String) (index : Nat)
    (validators : List (BasicType × List (Function φ))) (part : Value φ) (choice : Choice φ)
    (rest : List (Choice φ)) :
    (firstAccepting path validators part index (choice :: rest)).calls =
      (choice.examine path index part).calls ++ confirmingCalls path index validators part choice ++
        if choice.accepts part && isConfirmed validators choice.typeName? part then []
        else (firstAccepting path validators part (index + 1) rest).calls := by
  simp only [firstAccepting, Traced.calls_bind, choice_examine_result, List.append_assoc,
    confirmingCalls]
  congr 1
  cases accepted : choice.accepts part with
  | false => cases choice.typeName? <;> simp
  | true =>
      cases named : choice.typeName? with
      | none => simp [isConfirmed]
      | some type =>
          have confirmed := run_validators_result path index type part 0
            ((Entries.get? type validators).getD [])
          simp only [isConfirmed, Bool.true_and, ← confirmed, if_true]
          split <;> simp_all

/-- What one choice asks for, given what the shape inside it asks for. -/
theorem choice_ascends {property : Property φ} {part : Value φ} {before after : List (Choice φ)}
    {choice : Choice φ} (listed : property.choices = before ++ choice :: after)
    (refused : ∀ other ∈ before, property.Refuses part other)
    (inside : ∀ inner, choice.inner? = some inner → Ascend (inner.Asks part) (inner.examine part).calls) :
    Ascend (fun place => property.Asks part (before.length :: place))
      ((choice.examine property.path before.length part).calls ++
        confirmingCalls property.path before.length property.validators part choice) := by
  cases choice with
  | named type =>
      cases accepted : type.accepts part with
      | false =>
          have rejected : (Choice.named type).accepts part = false := accepted
          simpa [Choice.examine, confirmingCalls, Choice.typeName?, rejected] using ascend_nil
      | true =>
          have admitted : (Choice.named type).accepts part = true := accepted
          have whole : property.validatorsOf (.named type) =
              [] ++ property.validatorsOf (.named type) := rfl
          have asked := validators_ascend listed refused accepted whole (by simp)
          simpa [Choice.examine, confirmingCalls, Choice.typeName?, admitted,
            Property.validatorsOf] using asked.ascend
  | predicate function =>
      simpa [Choice.examine, Traced.call, confirmingCalls, Choice.typeName?] using
        ascend_singleton (.predicate listed refused)
  | instanceOf expected =>
      simpa [Choice.examine, confirmingCalls, Choice.typeName?] using ascend_nil
  | nested shape =>
      have asked := (inside shape rfl).map fun _ _ asks =>
        Property.Asks.inside listed refused rfl asks
      simpa [Choice.examine, confirmingCalls, Choice.typeName?, Traced.inside] using asked
  | schematic handle =>
      obtain ⟨serial, shape⟩ := handle
      have asked := (inside shape rfl).map fun _ _ asks =>
        Property.Asks.inside listed refused rfl asks
      simpa [Choice.examine, Handle.examine, confirmingCalls, Choice.typeName?, Traced.inside] using
        asked

/-- The choices of a property are asked one after the other, as long as they refuse. -/
theorem choices_ascend {property : Property φ} {part : Value φ} {before choices : List (Choice φ)}
    (listed : property.choices = before ++ choices)
    (refused : ∀ choice ∈ before, property.Refuses part choice)
    (inside : ∀ choice ∈ choices, ∀ inner, choice.inner? = some inner →
      Ascend (inner.Asks part) (inner.examine part).calls) :
    AscendFrom before.length (property.Asks part)
      (firstAccepting property.path property.validators part before.length choices).calls := by
  induction choices generalizing before with
  | nil => exact ascend_from_nil
  | cons choice rest ih =>
      obtain ⟨here, later⟩ := List.forall_mem_cons.mp inside
      rw [first_accepting_calls_cons]
      refine ascend_from_append (choice_ascends listed refused here) ?_
      cases taken : choice.accepts part && isConfirmed property.validators choice.typeName? part with
      | true => exact ascend_from_nil
      | false =>
          have extended : property.choices = (before ++ [choice]) ++ rest := by
            rw [listed, List.append_assoc, List.singleton_append]
          have all : ∀ other ∈ before ++ [choice], property.Refuses part other := by
            intro other member
            rcases List.mem_append.mp member with earlier | last
            · exact refused other earlier
            · exact List.mem_singleton.mp last ▸ taken
          simpa using ih extended all later

theorem property_ascends {property : Property φ} {part : Value φ}
    (inside : ∀ choice ∈ property.choices, ∀ inner, choice.inner? = some inner →
      Ascend (inner.Asks part) (inner.examine part).calls) :
    Ascend (property.Asks part) (property.examine part).calls := by
  have whole : property.choices = [] ++ property.choices := rfl
  exact (choices_ascend whole (by simp) inside).ascend

section Embedding

omit [Host φ]

/-- A value of one of the properties may have to meet the inner shape as a whole. -/
def Shape.EmbeddedIn (inner shape : Shape φ) : Prop :=
  ∃ entry ∈ shape.properties, ∃ choice ∈ entry.2.choices, choice.inner? = some inner

mutual

theorem Shape.acc_embedded : (shape : Shape φ) → Acc Shape.EmbeddedIn shape
  | ⟨properties, _, _, _⟩ => by
      refine .intro _ fun inner embedded => ?_
      obtain ⟨entry, member, choice, listed, whole⟩ := embedded
      exact acc_inside_properties properties entry member choice listed inner whole
termination_by structural shape => shape

theorem acc_inside_properties : (properties : List (String × Property φ)) →
    ∀ entry ∈ properties, ∀ choice ∈ entry.2.choices, ∀ inner, choice.inner? = some inner →
      Acc Shape.EmbeddedIn inner
  | [], _, member => nomatch member
  | (_, property) :: rest, entry, member => by
      rcases List.mem_cons.mp member with same | later
      · exact same ▸ property.acc_inside
      · exact acc_inside_properties rest entry later
termination_by structural properties => properties

theorem Property.acc_inside : (property : Property φ) →
    ∀ choice ∈ property.choices, ∀ inner, choice.inner? = some inner → Acc Shape.EmbeddedIn inner
  | ⟨_, _, choices, _⟩ => acc_inside_choices choices
termination_by structural property => property

theorem acc_inside_choices : (choices : List (Choice φ)) →
    ∀ choice ∈ choices, ∀ inner, choice.inner? = some inner → Acc Shape.EmbeddedIn inner
  | [], _, member => nomatch member
  | choice :: rest, other, member => by
      rcases List.mem_cons.mp member with same | later
      · exact same ▸ choice.acc_inside
      · exact acc_inside_choices rest other later
termination_by structural choices => choices

theorem Choice.acc_inside : (choice : Choice φ) →
    ∀ inner, choice.inner? = some inner → Acc Shape.EmbeddedIn inner
  | .nested shape, _, same => Option.some.inj same ▸ shape.acc_embedded
  | .schematic handle, _, same => Option.some.inj same ▸ handle.acc_inside
  | .named _, _, same | .predicate _, _, same | .instanceOf _, _, same => nomatch same
termination_by structural choice => choice

theorem Handle.acc_inside : (handle : Handle φ) → Acc Shape.EmbeddedIn handle.shape
  | ⟨_, shape⟩ => shape.acc_embedded
termination_by structural handle => handle

end

theorem Shape.embedded_in_well_founded : WellFounded (@Shape.EmbeddedIn φ) :=
  ⟨Shape.acc_embedded⟩

end Embedding

namespace Shape

theorem examine_calls (shape : Shape φ) (value : Value φ) :
    (shape.examine value).calls =
      if shape.enabled && value.isObjectLike then
        (visitKeys (matchers shape.properties) (value.outline shape.depth) [] shape.keys).calls
      else [] := by
  obtain ⟨properties, keys, enabled, depth⟩ := shape
  rw [examine]
  cases enabled && value.isObjectLike <;> simp

/-- The calls of one step of the walk, as `visit_keys_step` gives its verdict. -/
theorem visit_keys_calls_step (properties : List (String × Property φ))
    (outline : List (String × Value φ)) (satisfied : List String) (key : String)
    (rest : List String) :
    (visitKeys (matchers properties) outline satisfied (key :: rest)).calls =
      if satisfied.any (Path.isBelow key) then
        (visitKeys (matchers properties) outline satisfied rest).calls
      else
        match Entries.get? key properties with
        | none => (visitKeys (matchers properties) outline satisfied rest).calls
        | some property =>
            if property.required && (Value.partAt outline key).isUndefined then []
            else
              (property.examine (Value.partAt outline key)).calls ++
                match property.matching (Value.partAt outline key) with
                | none => []
                | some choice =>
                    if choice.typeName? = some .object then
                      (visitKeys (matchers properties) outline satisfied rest).calls
                    else (visitKeys (matchers properties) outline (satisfied ++ [key]) rest).calls := by
  rw [visitKeys, get_matchers]
  cases satisfied.any (Path.isBelow key) with
  | true => rfl
  | false =>
      cases Entries.get? key properties with
      | none => rfl
      | some property =>
          simp only [Bool.false_eq_true, if_false, Option.map_some, Property.matcher_eq,
            Property.matching]
          cases property.required && (Value.partAt outline key).isUndefined with
          | true => rfl
          | false =>
              simp only [Bool.false_eq_true, if_false, Traced.calls_bind]
              cases (property.examine (Value.partAt outline key)).result with
              | none => rfl
              | some hit => by_cases object : hit.2.typeName? = some .object <;> simp [object]

theorem unfailed_append {properties : List (String × Property φ)}
    {outline : List (String × Value φ)} {seen : List String} {key : String}
    (unfailed : Unfailed properties outline seen)
    (settled : (Entries.get? key properties).isSome = true →
      SettledAmong properties outline seen key) :
    Unfailed properties outline (seen ++ [key]) := by
  intro earlier other listed known
  rcases List.prefix_concat_iff.mp listed with whole | before
  · obtain ⟨rfl, last⟩ := List.append_inj' whole rfl
    obtain rfl := List.singleton_inj.mp last
    exact settled known
  · exact unfailed earlier other before known

/-- The calls made for the part under a key that the walk arrives at. -/
theorem Arrives.ascend {shape : Shape φ} {value : Value φ} {seen : List String} {key : String}
    {property : Property φ} (arrives : shape.Arrives value seen key property)
    (inside : ∀ inner : Shape φ, inner.EmbeddedIn shape →
      ∀ part, Ascend (inner.Asks part) (inner.examine part).calls) :
    Ascend (fun place => shape.Asks value (seen.length :: place))
      (property.examine (Value.partAt (value.outline shape.depth) key)).calls := by
  have asked := property_ascends fun choice listed inner whole =>
    inside inner ⟨(key, property), Entries.mem_of_get? arrives.found, choice, listed, whole⟩
      (Value.partAt (value.outline shape.depth) key)
  obtain ⟨places, each, ascending⟩ := asked
  exact ⟨places, each.imp fun _ _ due => .key arrives due, ascending⟩

/-- The keys still to visit ask for the calls of their properties, past those seen. -/
theorem keys_ascend {shape : Shape φ} {value : Value φ} (enabled : shape.enabled = true)
    (objectLike : value.isObjectLike = true)
    (inside : ∀ inner : Shape φ, inner.EmbeddedIn shape →
      ∀ part, Ascend (inner.Asks part) (inner.examine part).calls)
    {seen satisfied keys : List String} (split : shape.keys = seen ++ keys)
    (tracks : Tracks shape.properties (value.outline shape.depth) seen satisfied)
    (unfailed : Unfailed shape.properties (value.outline shape.depth) seen) :
    AscendFrom seen.length (shape.Asks value)
      (visitKeys (matchers shape.properties) (value.outline shape.depth) satisfied keys).calls := by
  -- Along the keys still to visit: `Tracks` tells which of them are passed over, and `Unfailed` that
  -- none of those seen has ended the walk.
  induction keys generalizing seen satisfied with
  | nil => exact ascend_from_nil
  | cons key rest ih =>
      have extended : shape.keys = (seen ++ [key]) ++ rest := by
        rw [split, List.append_assoc, List.singleton_append]
      have longer : seen.length + 1 = (seen ++ [key]).length := by simp
      rw [visit_keys_calls_step]
      cases passed : satisfied.any (Path.isBelow key) with
      | true =>
          have settled := (tracks key).mp passed
          have onwards := ih extended (tracks_passed_over tracks passed)
            (unfailed_append unfailed fun _ => .inl settled)
          rw [if_pos rfl]
          exact onwards.mono (by omega)
      | false =>
          have reached : ¬ ∃ above ∈ seen, Path.isBelow key above = true ∧
              CoversAt shape.properties (value.outline shape.depth) above := by
            rw [← tracks key, passed]
            exact Bool.false_ne_true
          simp only [Bool.false_eq_true, if_false]
          cases found : Entries.get? key shape.properties with
          | none =>
              have uncovered : ¬ CoversAt shape.properties (value.outline shape.depth) key := by
                rintro ⟨property, same, _⟩
                exact nomatch found.symm.trans same
              have onwards := ih extended (tracks_not_covering tracks uncovered)
                (unfailed_append unfailed fun known => by simp [found] at known)
              exact onwards.mono (by omega)
          | some property =>
              simp only
              cases missing : property.required &&
                (Value.partAt (value.outline shape.depth) key).isUndefined with
              | true => exact ascend_from_nil
              | false =>
                  have present : property.required = true →
                      (Value.partAt (value.outline shape.depth) key).isUndefined = false := by
                    intro required
                    simpa [required] using missing
                  have arrives : shape.Arrives value seen key property :=
                    { enabled, objectLike, listed := ⟨rest, extended.symm⟩, found, unfailed, present
                      uncovered := fun above member below covers =>
                        reached ⟨above, member, below, covers⟩ }
                  rw [if_neg Bool.false_ne_true]
                  refine ascend_from_append (arrives.ascend inside) ?_
                  cases matched : property.matching (Value.partAt (value.outline shape.depth) key) with
                  | none => exact ascend_from_nil
                  | some choice =>
                      have met : MeetsAt shape.properties (value.outline shape.depth) key :=
                        (meets_at_unique found).mpr ⟨present, by rw [matched]; rfl⟩
                      have onwards := unfailed_append unfailed fun _ => .inr met
                      have covers := covers_at_unique found matched
                      rw [longer]
                      by_cases object : choice.typeName? = some .object
                      · simpa [object] using
                          ih extended (tracks_not_covering tracks (by simp [covers, object])) onwards
                      · simpa [object] using
                          ih extended (tracks_covering tracks (covers.mpr object)) onwards

/-- The step: a shape makes due calls in order if the shapes embedded in it do. -/
theorem calls_ascend_of_embedded (shape : Shape φ) (value : Value φ)
    (inside : ∀ inner : Shape φ, inner.EmbeddedIn shape →
      ∀ part, Ascend (inner.Asks part) (inner.examine part).calls) :
    Ascend (shape.Asks value) (shape.examine value).calls := by
  rw [examine_calls]
  cases enabled : shape.enabled with
  | false => exact ascend_nil
  | true =>
      cases objectLike : value.isObjectLike with
      | false => exact ascend_nil
      | true =>
          have untouched : Unfailed shape.properties (value.outline shape.depth) [] := by
            intro earlier key listed
            simp at listed
          have whole : shape.keys = [] ++ shape.keys := rfl
          exact (keys_ascend enabled objectLike inside whole
            (tracks_nil shape.properties (value.outline shape.depth)) untouched).ascend

/-- The run: all calls that checking a value makes are due, in the order of their places. -/
theorem calls_ascend (shape : Shape φ) (value : Value φ) :
    Ascend (shape.Asks value) (shape.examine value).calls := by
  induction shape using embedded_in_well_founded.induction generalizing value with
  | _ shape ih => exact calls_ascend_of_embedded shape value ih

/-- A well-formed shape notes its own calls for the key that they are made under. -/
theorem own_call_arrives {shape : Shape φ} (formed : shape.WellFormed) {value : Value φ}
    {place : List Nat} {call : Call φ} (asks : shape.Asks value place call)
    (own : call.within = []) :
    ∃ earlier property index, shape.Arrives value earlier call.path property ∧
      call.subject = Value.partAt (value.outline shape.depth) call.path ∧
      property.Asks call.subject index call := by
  obtain @⟨_, _, earlier, key, property, index, _, arrives, asked⟩ := asks
  have same : property.path = key := by
    rcases formed with rfl | assembled
    · exact absurd arrives.enabled Bool.false_ne_true
    · exact assembled.path (key, property) (Entries.mem_of_get? arrives.found)
  have noted : call.path = key ∧
      call.subject = Value.partAt (value.outline shape.depth) key := by
    cases asked with
    | predicate listed refused => exact ⟨same, rfl⟩
    | validator listed refused accepted registered confirmed => exact ⟨same, rfl⟩
    | inside listed refused whole deeper => exact absurd own (List.cons_ne_nil _ _)
  obtain ⟨rfl, subject⟩ := noted
  exact ⟨earlier, property, index, arrives, subject, subject ▸ asked⟩

def plainClass : Class :=
  .root 0 "Plain"

def finerClass : Class :=
  .sub 1 "Finer" plainClass

/-- Instances have to pass two guards under `a`, and `b` has a guard before a declaration of its own
with a guard in it. -/
def guarded : Declaration Empty :=
  ⟨[("b", .anyOf [.predicate ⟨0, .guard plainClass⟩,
      .inline ⟨[("c", .single (.predicate ⟨1, .guard finerClass⟩))]⟩]),
    ("a", .record true [.named .string, .named .object]
      [(.object, [⟨0, .guard plainClass⟩, ⟨1, .guard finerClass⟩])])]⟩

def guardedPart : Shape Empty :=
  { properties := [("c", ⟨"c", true, [.predicate ⟨1, .guard finerClass⟩], []⟩)]
    keys := ["c"]
    enabled := true
    depth := 1 }

def guardedShape : Shape Empty :=
  { properties :=
      [("b", ⟨"b", true, [.predicate ⟨0, .guard plainClass⟩, .nested guardedPart], []⟩),
        ("a", ⟨"a", true, [.named .string, .named .object],
          [(.object, [⟨0, .guard plainClass⟩, ⟨1, .guard finerClass⟩])]⟩)]
    keys := ["a", "b"]
    enabled := true
    depth := 1 }

def halfGuarded : Value Empty :=
  .object ⟨0, 0⟩ [("a", .instanceOf finerClass []), ("b", .object ⟨1, 1⟩ [("c", .null)])]

def halfGuardedCalls : List (Call Empty) :=
  [⟨[], "a", .validator 1 .object 0, ⟨0, .guard plainClass⟩, .instanceOf finerClass []⟩,
    ⟨[], "a", .validator 1 .object 1, ⟨1, .guard finerClass⟩, .instanceOf finerClass []⟩,
    ⟨[], "b", .choice 0, ⟨0, .guard plainClass⟩, .object ⟨1, 1⟩ [("c", .null)]⟩,
    ⟨[("b", 1)], "c", .choice 0, ⟨1, .guard finerClass⟩, .null⟩]

/-- Whatever shape of a compiled declaration a value is checked against, the log consists of due
calls, at places that ascend; the calls of the shape itself stand under the key of the part that
they are made on. -/
theorem compiled_calls_ascend (policy : EmptyPolicy) (declaration : Declaration φ)
    (shape : Shape φ) (compiled : declaration.compile policy = .ok shape) (inner : Shape φ)
    (reached : Relation.ReflTransGen Nests shape inner) (value : Value φ) :
    Ascend (inner.Asks value) (inner.examine value).calls ∧
      ∀ call ∈ (inner.examine value).calls, call.within = [] →
        ∃ earlier property place, inner.Arrives value earlier call.path property ∧
          call.subject = Value.partAt (value.outline inner.depth) call.path ∧
          property.Asks call.subject place call := by
  obtain ⟨_, _, _, _, built⟩ := built_of_reached compiled reached
  refine ⟨calls_ascend inner value, fun call made own => ?_⟩
  obtain ⟨places, each, _⟩ := calls_ascend inner value
  obtain ⟨place, _, asks⟩ := exists_of_forall₂ each made
  exact own_call_arrives (well_formed_of_build built) asks own

theorem guarded_calls_ascend :
    guarded.compile .reject = .ok guardedShape ∧
      (guardedShape.examine halfGuarded).calls = halfGuardedCalls ∧
      Ascend (guardedShape.Asks halfGuarded) halfGuardedCalls := by
  have compiled : guarded.compile .reject = .ok guardedShape := by cbv
  have made : (guardedShape.examine halfGuarded).calls = halfGuardedCalls := by cbv
  obtain ⟨ordered, _⟩ :=
    compiled_calls_ascend .reject guarded guardedShape compiled guardedShape .refl halfGuarded
  exact ⟨compiled, made, made ▸ ordered⟩

end Shape

end ObjectShape
