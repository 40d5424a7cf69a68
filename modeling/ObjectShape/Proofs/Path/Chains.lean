import ObjectShape.Proofs.Path.Plain

/-!
# What a path shows of its chain

Joining drops the empty keys that a chain starts with, because an empty path counts as none; every
other key stays in the path. If no key holds a separator, the segments of the path are the keys that
stay, so two chains have one path only if they differ in dropped keys.
-/

namespace ObjectShape.Path

set_option autoImplicit false

theorem segments_of_extend_some {path longer : String} {keys : List String} (filled : path ≠ "")
    (reached : extend (some path) keys = some longer) :
    segments longer = segments path ++ keys.flatMap segments := by
  induction keys generalizing path with
  | nil =>
      obtain rfl := Option.some.inj reached
      simp
  | cons key rest ih =>
      have further := ih (join_some_ne_empty key filled) reached
      rw [further, segments_join key filled, List.flatMap_cons, List.append_assoc]

theorem length_le_length_segments (keys : List String) :
    keys.length ≤ (keys.flatMap segments).length := by
  induction keys with
  | nil => simp
  | cons key rest ih =>
      have own := List.length_pos_iff.mpr (segments_ne_nil key)
      rw [List.flatMap_cons, List.length_append, List.length_cons]
      omega

/-- A chain that starts with a filled key spells a path of at least as many segments. -/
theorem length_le_depth {key path : String} {rest : List String} (filled : key ≠ "")
    (reached : extend none (key :: rest) = some path) : (key :: rest).length ≤ depth path := by
  have spelled := segments_of_extend_some filled reached
  have own := List.length_pos_iff.mpr (segments_ne_nil key)
  have later := length_le_length_segments rest
  rw [depth, spelled, List.length_append, List.length_cons]
  omega

theorem segments_of_undotted_keys {keys : List String} (undotted : isUndotted keys = true) :
    keys.flatMap segments = keys := by
  rw [is_undotted_iff] at undotted
  induction keys with
  | nil => rfl
  | cons key rest ih =>
      obtain ⟨here, later⟩ := List.forall_mem_cons.mp undotted
      rw [List.flatMap_cons, segments_of_undotted here, ih later, List.singleton_append]

/-- The chain starts with an empty key and goes on. -/
def dropsKey : List String → Bool
  | key :: _ :: _ => key == ""
  | _ => false

/-- Every key of the chain is a segment of its own in the path. -/
def showsKeys (chain : List String) : Bool :=
  isUndotted chain && !dropsKey chain

/-- The keys of a chain without the empty ones that it starts with; the last key stays. -/
def keptKeys : List String → List String
  | key :: next :: rest => if key = "" then keptKeys (next :: rest) else key :: next :: rest
  | chain => chain

theorem extend_kept_keys (chain : List String) : extend none (keptKeys chain) = extend none chain := by
  fun_induction keptKeys chain with
  | case1 next rest ih => exact ih
  | case2 => rfl
  | case3 => rfl

theorem drops_no_kept_key (chain : List String) : dropsKey (keptKeys chain) = false := by
  fun_induction keptKeys chain with
  | case1 next rest ih => exact ih
  | case2 key next rest filled => simpa [dropsKey] using filled
  | case3 chain short =>
      match chain with
      | [] => rfl
      | [_] => rfl
      | key :: next :: rest => exact absurd rfl (short key next rest)

theorem kept_keys_sublist (chain : List String) : (keptKeys chain).Sublist chain := by
  fun_induction keptKeys chain with
  | case1 next rest ih => exact ih.cons ""
  | case2 => exact List.Sublist.refl _
  | case3 => exact List.Sublist.refl _

theorem segments_of_shown {chain : List String} {path : String} (shown : showsKeys chain = true)
    (reached : extend none chain = some path) : segments path = chain := by
  obtain ⟨undotted, keeps⟩ := Bool.and_eq_true_iff.mp shown
  match chain with
  | [] => exact absurd reached (by simp [extend])
  | [key] =>
      obtain rfl : key = path := Option.some.inj reached
      exact segments_of_undotted (is_undotted_iff.mp undotted key List.mem_cons_self)
  | key :: next :: rest =>
      have filled : key ≠ "" := by simpa [dropsKey] using keeps
      have spelled := segments_of_extend_some filled reached
      rwa [← List.flatMap_cons, segments_of_undotted_keys undotted] at spelled

theorem shows_kept_keys {chain : List String} (undotted : isUndotted chain = true) :
    showsKeys (keptKeys chain) = true := by
  have kept : isUndotted (keptKeys chain) = true := by
    rw [is_undotted_iff] at undotted ⊢
    exact fun key member => undotted key ((kept_keys_sublist chain).subset member)
  rw [showsKeys, kept, drops_no_kept_key]
  rfl

theorem segments_of_chain {chain : List String} {path : String}
    (undotted : isUndotted chain = true) (reached : extend none chain = some path) :
    segments path = keptKeys chain :=
  segments_of_shown (shows_kept_keys undotted) ((extend_kept_keys chain).trans reached)

/-- No two chains that show all their keys have one path. -/
theorem eq_of_shown {left right : List String} {path : String} (leftShown : showsKeys left = true)
    (rightShown : showsKeys right = true) (leftReached : extend none left = some path)
    (rightReached : extend none right = some path) : left = right := by
  rw [← segments_of_shown leftShown leftReached, segments_of_shown rightShown rightReached]

/-- Two chains without dotted keys have one path if and only if they keep the same keys. -/
theorem extend_eq_iff {left right : List String} (filled : left ≠ [])
    (leftUndotted : isUndotted left = true) (rightUndotted : isUndotted right = true) :
    extend none left = extend none right ↔ keptKeys left = keptKeys right := by
  constructor
  · intro same
    obtain ⟨path, reached⟩ := exists_extend none filled
    rw [← segments_of_chain leftUndotted reached,
      ← segments_of_chain rightUndotted (same.symm.trans reached)]
  · intro kept
    rw [← extend_kept_keys left, kept, extend_kept_keys right]

/-- Two chains that share a path although no key is dotted differ in dropped keys. -/
theorem drops_key_of_shared_path {left right : List String} {path : String}
    (leftUndotted : isUndotted left = true) (rightUndotted : isUndotted right = true)
    (different : left ≠ right) (leftReached : extend none left = some path)
    (rightReached : extend none right = some path) :
    dropsKey left = true ∨ dropsKey right = true := by
  cases leftDrops : dropsKey left with
  | true => exact .inl rfl
  | false =>
      cases rightDrops : dropsKey right with
      | true => exact .inr rfl
      | false =>
          have leftShown : showsKeys left = true := by simp [showsKeys, leftUndotted, leftDrops]
          have rightShown : showsKeys right = true := by simp [showsKeys, rightUndotted, rightDrops]
          exact absurd (eq_of_shown leftShown rightShown leftReached rightReached) different

end ObjectShape.Path
