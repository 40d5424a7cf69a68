import ObjectShape.Proofs.Workspace.History

/-!
# What lives later

Objects only come to life by being made, with a number that no object had before. So an object that
lives after an action either lived before it, with the same fields, or is new. The heap of a workspace
stays sound for the values that have a name.
-/

namespace ObjectShape

set_option autoImplicit false

variable {φ : Type}

namespace Workspace

/-- Nothing lives in the later workspace but what lived in the earlier one and what is new. -/
structure Ages (before after : Workspace φ) : Prop where
  sound : before.heap.Sound before.pool → after.heap.Sound after.pool
  counted : before.heap.nextSerial ≤ after.heap.nextSerial
  lived_or_new : ∀ {ref fields}, Lives after.pool ref fields →
    Lives before.pool ref fields ∨ before.heap.nextSerial ≤ ref.serial

theorem sound_of_release {workspace : Workspace φ}
    (sound : workspace.heap.Sound workspace.pool) :
    workspace.release.heap.Sound workspace.release.pool :=
  sound.release fun lives => mem_alive_iff.mpr ⟨_, lives⟩

theorem ages_of_bind_value {workspace : Workspace φ} {name : String} {value : Value φ} {heap : Heap}
    {atHand : List (Value φ)} (making : Making workspace.heap workspace.pool heap atHand)
    (made : MadeOf atHand value) : workspace.Ages (workspace.bindValue name value heap) := by
  have lived : Outlived (workspace.bindValue name value heap).pool atHand := by
    rintro ref fields ⟨held, named, holds⟩
    obtain ⟨entry, member, rfl⟩ := List.mem_map.mp named
    rcases Entries.mem_of_mem_put member with rfl | old
    · exact made holds
    · exact making.outlived ⟨entry.2, List.mem_map_of_mem old, holds⟩
  constructor
  case sound =>
    intro sound
    exact sound_of_release ((making.sound sound).of_outlived lived)
  case counted => exact making.next_serial_le
  case lived_or_new => exact fun lives => making.lived_or_new (lived lives)

theorem ages_of_drop_value (name : String) (workspace : Workspace φ) :
    workspace.Ages (workspace.dropValue name) := by
  have lived : Outlived (workspace.dropValue name).pool workspace.pool := by
    rintro ref fields ⟨held, named, holds⟩
    obtain ⟨entry, member, rfl⟩ := List.mem_map.mp named
    exact ⟨entry.2, List.mem_map_of_mem (List.mem_filter.mp member).1, holds⟩
  constructor
  case sound => exact fun sound => sound_of_release (sound.of_outlived lived)
  case counted => exact Nat.le_refl _
  case lived_or_new => exact fun lives => .inl (lived lives)

/-- The same values on the same heap, or on that heap after a number was given. -/
theorem ages_of_values_eq {before after : Workspace φ} (values : after.values = before.values)
    (heap : after.heap = before.heap ∨ after.heap = before.counted.heap) : before.Ages after := by
  have pool : after.pool = before.pool := congrArg (List.map Prod.snd) values
  rcases heap with same | next
  · exact ⟨fun sound => by rw [same, pool]; exact sound, Nat.le_of_eq (by rw [same]),
      fun lives => .inl (pool ▸ lives)⟩
  · refine ⟨fun sound => ?_, ?_, fun lives => .inl (pool ▸ lives)⟩
    · rw [next, pool]
      exact sound.new_serial
    · rw [next]
      exact Nat.le_succ _

theorem ages_of_remember (compiler : Compiler) (source : ObjectRef) (handle : Handle φ)
    (workspace : Workspace φ) : workspace.Ages (workspace.remember compiler source handle) := by
  rw [remember_eq]
  exact ages_of_values_eq rfl (.inl rfl)

theorem ages_of_forget (compiler : Compiler) (workspace : Workspace φ) :
    workspace.Ages (workspace.forget compiler) := by
  rw [forget_eq]
  exact ages_of_values_eq rfl (.inl rfl)

theorem ages_of_counted (workspace : Workspace φ) : workspace.Ages workspace.counted :=
  ages_of_values_eq rfl (.inr rfl)

theorem ages_of_perform {workspace : Workspace φ} {action : Action φ}
    (allowed : workspace.Allows action) : workspace.Ages (workspace.perform action) := by
  cases action with
  | bind name value heap =>
      obtain ⟨atHand, making, made⟩ := allowed
      exact ages_of_bind_value making made
  | drop name => exact ages_of_drop_value name workspace
  | compile compiler raw =>
      rcases perform_compile compiler raw workspace with
        ⟨source, fields, shape, _, _, _, _, after⟩ | ⟨_, after | after⟩ <;> rw [after]
      · rw [remember_eq]
        exact ages_of_values_eq rfl (.inr rfl)
      · exact ages_of_values_eq rfl (.inl rfl)
      · exact ages_of_counted workspace
  | insert compiler source handle => exact ages_of_remember compiler source handle workspace
  | clear compiler => exact ages_of_forget compiler workspace
  | newCompiler _ _ | cloneCompiler _ _ | get _ _ => exact ages_of_values_eq rfl (.inl rfl)

end Workspace

end ObjectShape
