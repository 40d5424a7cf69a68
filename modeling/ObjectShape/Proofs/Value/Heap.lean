import ObjectShape.Proofs.Value.Holding

/-!
# Sound heaps

A heap is sound for a pool of values if every object that lives in the pool has an address of its own,
which is not free, and a serial number that was given. Making an object of what is at hand keeps a heap
sound, and so does giving the addresses of dead objects back. An object that is new has a number that no
object had before, although its address may be an old one.
-/

namespace ObjectShape

set_option autoImplicit false

variable {φ : Type}

namespace Heap

structure Sound (heap : Heap) (pool : List (Value φ)) : Prop where
  numbered : ∀ {ref fields}, Lives pool ref fields → ref.serial < heap.nextSerial
  placed : ∀ {ref fields}, Lives pool ref fields → ref.address < heap.top
  taken : ∀ {ref fields}, Lives pool ref fields → ref.address ∉ heap.free
  /-- Objects at one address are one object. -/
  apart : ∀ {ref other fields inside}, Lives pool ref fields → Lives pool other inside →
    ref.address = other.address → ref = other ∧ fields = inside
  room : ∀ address ∈ heap.free, address < heap.top
  distinct : heap.free.Nodup

theorem Sound.of_outlived {heap : Heap} {pool smaller : List (Value φ)} (sound : heap.Sound pool)
    (lived : Outlived smaller pool) : heap.Sound smaller where
  numbered lives := sound.numbered (lived lives)
  placed lives := sound.placed (lived lives)
  taken lives := sound.taken (lived lives)
  apart lives also := sound.apart (lived lives) (lived also)
  room := sound.room
  distinct := sound.distinct

theorem sound_of_empty : ({} : Heap).Sound ([] : List (Value φ)) where
  numbered lives := nomatch lives.choose_spec.1
  placed lives := nomatch lives.choose_spec.1
  taken lives := nomatch lives.choose_spec.1
  apart lives := nomatch lives.choose_spec.1
  room _ member := nomatch member
  distinct := List.nodup_nil

theorem new_object_cases {heap after : Heap} {ref : ObjectRef}
    (made : Heap.newObject.run heap = (ref, after)) :
    ref.serial = heap.nextSerial ∧ after.nextSerial = heap.nextSerial + 1 ∧
      ((heap.free = ref.address :: after.free ∧ after.top = heap.top) ∨
        (heap.free = [] ∧ after.free = [] ∧ ref.address = heap.top ∧ after.top = heap.top + 1)) := by
  obtain ⟨free, top, nextSerial⟩ := heap
  cases free with
  | nil =>
      cases made
      exact ⟨rfl, rfl, .inr ⟨rfl, rfl, rfl, rfl⟩⟩
  | cons address rest =>
      cases made
      exact ⟨rfl, rfl, .inl ⟨rfl, rfl⟩⟩

theorem new_object_address {heap after : Heap} {ref : ObjectRef} {pool : List (Value φ)}
    (sound : heap.Sound pool) (made : Heap.newObject.run heap = (ref, after)) :
    ref.address < after.top ∧ ref.address ∉ after.free ∧ heap.top ≤ after.top ∧
      (∀ address ∈ after.free, address ∈ heap.free) ∧ after.free.Nodup ∧
      ∀ {other fields}, Lives pool other fields → other.address ≠ ref.address := by
  obtain ⟨_, _, ⟨free, top⟩ | ⟨none_free, free, address, top⟩⟩ := new_object_cases made
  · have distinct := sound.distinct
    have room := sound.room ref.address (by rw [free]; exact List.mem_cons_self)
    rw [free, List.nodup_cons] at distinct
    refine ⟨by omega, distinct.1, by omega, ?_, distinct.2, ?_⟩
    · intro address member
      rw [free]
      exact List.mem_cons_of_mem _ member
    · intro other fields lives same
      apply sound.taken lives
      rw [free, same]
      exact List.mem_cons_self
  · refine ⟨by omega, by simp [free], by omega, by simp [free], by simp [free], ?_⟩
    intro other fields lives same
    have := sound.placed lives
    omega

theorem Sound.new_object {heap after : Heap} {ref : ObjectRef} {pool : List (Value φ)}
    {fields : List (String × Value φ)} (sound : heap.Sound pool)
    (parts : ∀ entry ∈ fields, MadeOf pool entry.2)
    (made : Heap.newObject.run heap = (ref, after)) :
    after.Sound (.object ref fields :: pool) := by
  obtain ⟨serial, next, _⟩ := new_object_cases made
  obtain ⟨below, fresh, grown, kept, distinct, alone⟩ := new_object_address sound made
  constructor
  case numbered =>
    intro other inside lives
    rcases lives_of_object_cons parts lives with ⟨rfl, rfl⟩ | old
    · omega
    · have := sound.numbered old
      omega
  case placed =>
    intro other inside lives
    rcases lives_of_object_cons parts lives with ⟨rfl, rfl⟩ | old
    · exact below
    · exact Nat.lt_of_lt_of_le (sound.placed old) grown
  case taken =>
    intro other inside lives
    rcases lives_of_object_cons parts lives with ⟨rfl, rfl⟩ | old
    · exact fresh
    · exact fun free => sound.taken old (kept _ free)
  case apart =>
    intro left right inside within lives also same
    rcases lives_of_object_cons parts lives with ⟨rfl, rfl⟩ | old <;>
      rcases lives_of_object_cons parts also with ⟨rfl, rfl⟩ | known
    · exact ⟨rfl, rfl⟩
    · exact absurd same.symm (alone known)
    · exact absurd same (alone old)
    · exact sound.apart old known same
  case room => exact fun address free => Nat.lt_of_lt_of_le (sound.room _ (kept _ free)) grown
  case distinct => exact distinct

theorem Sound.new_serial {heap : Heap} {pool : List (Value φ)} (sound : heap.Sound pool) :
    (Heap.newSerial.run heap).2.Sound pool where
  numbered lives := Nat.lt_succ_of_lt (sound.numbered lives)
  placed := sound.placed
  taken := sound.taken
  apart := sound.apart
  room := sound.room
  distinct := sound.distinct

theorem Sound.release {heap : Heap} {pool : List (Value φ)} (sound : heap.Sound pool)
    {alive : List ObjectRef} (complete : ∀ {ref fields}, Lives pool ref fields → ref ∈ alive) :
    (heap.release alive).Sound pool where
  numbered := sound.numbered
  placed := sound.placed
  taken := by
    intro ref fields lives free
    obtain ⟨_, unused⟩ := List.mem_filter.mp free
    rw [Bool.not_eq_true', List.any_eq_false] at unused
    exact unused ref (complete lives) (beq_self_eq_true _)
  apart := sound.apart
  room address free := List.mem_range.mp (List.mem_filter.mp free).1
  distinct := List.nodup_range.filter _

end Heap

/-- What building values leads to: a heap, and the values at hand to build with. It begins with a
heap and a pool; an object is made of what is at hand, and then at hand itself. -/
inductive Making (heap : Heap) (pool : List (Value φ)) : Heap → List (Value φ) → Prop where
  | start : Making heap pool heap pool
  | object {now after : Heap} {atHand : List (Value φ)} {ref : ObjectRef}
      {fields : List (String × Value φ)} (before : Making heap pool now atHand)
      (parts : ∀ entry ∈ fields, MadeOf atHand entry.2)
      (made : Heap.newObject.run now = (ref, after)) :
      Making heap pool after (.object ref fields :: atHand)
  | serial {now : Heap} {atHand : List (Value φ)} (before : Making heap pool now atHand) :
      Making heap pool (Heap.newSerial.run now).2 atHand

/-- Texts hold no objects, so an object of texts can be made at any time. -/
theorem making_of_texts {heap after : Heap} {pool : List (Value φ)} {ref : ObjectRef}
    {fields : List (String × Value φ)} (texts : ∀ entry ∈ fields, ∃ text, entry.2 = .string text)
    (made : Heap.newObject.run heap = (ref, after)) :
    Making heap pool after (.object ref fields :: pool) := by
  refine .object .start ?_ made
  intro entry member _ _ held
  obtain ⟨text, same⟩ := texts entry member
  rw [same] at held
  cases held

namespace Making

variable {heap after : Heap} {pool atHand : List (Value φ)}

theorem sound (making : Making heap pool after atHand) (start : heap.Sound pool) :
    after.Sound atHand := by
  induction making with
  | start => exact start
  | object _ parts made ih => exact ih.new_object parts made
  | serial _ ih => exact ih.new_serial

theorem outlived (making : Making heap pool after atHand) : Outlived pool atHand := by
  induction making with
  | start => exact fun _ _ lives => lives
  | object _ _ _ ih => exact fun _ _ lives => outlived_cons _ _ (ih lives)
  | serial _ ih => exact ih

theorem next_serial_le (making : Making heap pool after atHand) :
    heap.nextSerial ≤ after.nextSerial := by
  induction making with
  | start => exact Nat.le_refl _
  | object _ _ made ih =>
      obtain ⟨_, next, _⟩ := Heap.new_object_cases made
      omega
  | serial _ ih => exact Nat.le_succ_of_le ih

theorem lived_or_new (making : Making heap pool after atHand) {ref : ObjectRef}
    {fields : List (String × Value φ)} (lives : Lives atHand ref fields) :
    Lives pool ref fields ∨ heap.nextSerial ≤ ref.serial := by
  induction making with
  | start => exact .inl lives
  | object before parts made ih =>
      rcases lives_of_object_cons parts lives with ⟨rfl, rfl⟩ | old
      · obtain ⟨serial, _⟩ := Heap.new_object_cases made
        exact .inr (serial ▸ before.next_serial_le)
      · exact ih old
  | serial _ ih => exact ih lives

end Making

end ObjectShape
