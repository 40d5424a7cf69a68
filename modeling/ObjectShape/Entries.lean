/-!
# Entries in order of first writing

Object fields, declarations and compiled tables are lists of key and value pairs. A key keeps the
place where it was first written, whatever is written under it later. Every change goes through
`upsert`, so two laws describe them all: what the keys are afterwards, and what each key holds.
-/

namespace ObjectShape.Entries

set_option autoImplicit false

variable {κ α β : Type} [DecidableEq κ]

/-- The value under the first entry with the key. -/
def get? (key : κ) : List (κ × α) → Option α
  | [] => none
  | (other, value) :: rest => if other = key then some value else get? key rest

def keys (entries : List (κ × α)) : List κ :=
  entries.map Prod.fst

/-- Gives the entry under `key` the value that `change` makes of its present one. A key without an
entry is added at the end. -/
def upsert (key : κ) (change : Option α → α) : List (κ × α) → List (κ × α)
  | [] => [(key, change none)]
  | (other, value) :: rest =>
      if other = key then (other, change (some value)) :: rest
      else (other, value) :: upsert key change rest

def put (key : κ) (value : α) (entries : List (κ × α)) : List (κ × α) :=
  upsert key (fun _ => value) entries

def putNew (key : κ) (value : α) (entries : List (κ × α)) : List (κ × α) :=
  upsert key (fun present => present.getD value) entries

/-- The entries written one after the other: a repeated key keeps its first place and takes its
last value. -/
def ofList (pairs : List (κ × α)) : List (κ × α) :=
  pairs.foldl (fun entries pair => put pair.1 pair.2 entries) []

theorem get?_eq_none_iff {key : κ} {entries : List (κ × α)} :
    get? key entries = none ↔ key ∉ keys entries := by
  induction entries with
  | nil => simp [get?, keys]
  | cons entry rest ih =>
      obtain ⟨other, value⟩ := entry
      by_cases same : other = key
      · simp [get?, keys, same]
      · have different : ¬ key = other := fun equal => same equal.symm
        simpa [get?, keys, same, different] using ih

theorem get?_upsert (key wanted : κ) (change : Option α → α) (entries : List (κ × α)) :
    get? wanted (upsert key change entries) =
      if key = wanted then some (change (get? key entries)) else get? wanted entries := by
  induction entries with
  | nil => by_cases same : key = wanted <;> simp [upsert, get?, same]
  | cons entry rest ih =>
      obtain ⟨other, value⟩ := entry
      by_cases found : other = key
      · by_cases same : key = wanted <;> simp [upsert, get?, found, same]
      · by_cases same : key = wanted
        · subst same
          simpa [upsert, get?, found] using ih
        · by_cases here : other = wanted
          · subst here
            simp [upsert, get?, found, same]
          · simp [upsert, get?, found, same, here, ih]

theorem keys_upsert (key : κ) (change : Option α → α) (entries : List (κ × α)) :
    keys (upsert key change entries) =
      if key ∈ keys entries then keys entries else keys entries ++ [key] := by
  induction entries with
  | nil => simp [upsert, keys]
  | cons entry rest ih =>
      obtain ⟨other, value⟩ := entry
      by_cases found : other = key
      · simp [upsert, keys, found]
      · have different : ¬ key = other := fun equal => found equal.symm
        simp only [keys] at ih
        by_cases present : key ∈ rest.map Prod.fst <;>
          simp [upsert, keys, found, different, ih, present]

theorem upsert_of_not_mem (key : κ) (change : Option α → α) {entries : List (κ × α)}
    (fresh : key ∉ keys entries) : upsert key change entries = entries ++ [(key, change none)] := by
  induction entries with
  | nil => rfl
  | cons entry rest ih =>
      have different : ¬ entry.1 = key := by
        intro same
        exact fresh (by simp [keys, same])
      have later : key ∉ keys rest := fun member => fresh (List.mem_cons_of_mem _ member)
      simp [upsert, different, ih later]

theorem nodup_keys_upsert (key : κ) (change : Option α → α) {entries : List (κ × α)}
    (distinct : (keys entries).Nodup) : (keys (upsert key change entries)).Nodup := by
  rw [keys_upsert]
  split
  · exact distinct
  · rename_i absent
    rw [List.nodup_append]
    refine ⟨distinct, by simp, ?_⟩
    intro other present added same equal
    simp only [List.mem_singleton] at same
    exact absent (by rw [← same, ← equal]; exact present)

theorem mem_of_get? {key : κ} {value : α} {entries : List (κ × α)}
    (found : get? key entries = some value) : (key, value) ∈ entries := by
  induction entries with
  | nil => simp [get?] at found
  | cons entry rest ih =>
      obtain ⟨other, present⟩ := entry
      by_cases same : other = key
      · simp_all [get?]
      · simp only [get?, same, if_false] at found
        exact List.mem_cons_of_mem _ (ih found)

theorem get?_eq_some_iff_mem {key : κ} {value : α} {entries : List (κ × α)}
    (distinct : (keys entries).Nodup) : get? key entries = some value ↔ (key, value) ∈ entries := by
  refine ⟨mem_of_get?, fun member => ?_⟩
  induction entries with
  | nil => simp at member
  | cons entry rest ih =>
      obtain ⟨other, present⟩ := entry
      obtain ⟨fresh, distinct⟩ := List.nodup_cons.mp distinct
      rcases List.mem_cons.mp member with same | member
      · obtain ⟨rfl, rfl⟩ := Prod.mk.inj same
        simp [get?]
      · have different : ¬ other = key := by
          intro equal
          exact fresh (equal ▸ List.mem_map.mpr ⟨_, member, rfl⟩)
        simpa [get?, different] using ih distinct member

theorem mem_of_mem_put {key : κ} {value : α} {entries : List (κ × α)} {entry : κ × α}
    (member : entry ∈ put key value entries) : entry = (key, value) ∨ entry ∈ entries := by
  induction entries with
  | nil => exact .inl (List.mem_singleton.mp member)
  | cons first rest ih =>
      obtain ⟨other, present⟩ := first
      by_cases same : other = key
      · subst same
        rw [put, upsert, if_pos rfl] at member
        rcases List.mem_cons.mp member with new | old
        · exact .inl new
        · exact .inr (List.mem_cons_of_mem _ old)
      · rw [put, upsert, if_neg same] at member
        rcases List.mem_cons.mp member with rfl | later
        · exact .inr List.mem_cons_self
        · exact (ih later).imp id (List.mem_cons_of_mem _)

theorem get?_map (key : κ) (change : α → β) (entries : List (κ × α)) :
    get? key (entries.map fun entry => (entry.1, change entry.2)) = (get? key entries).map change := by
  induction entries with
  | nil => rfl
  | cons entry rest ih =>
      by_cases same : entry.1 = key <;> simp [get?, same, ih]

omit [DecidableEq κ] in
theorem keys_map (change : α → β) (entries : List (κ × α)) :
    keys (entries.map fun entry => (entry.1, change entry.2)) = keys entries := by
  simp [keys]

theorem get?_put (key wanted : κ) (value : α) (entries : List (κ × α)) :
    get? wanted (put key value entries) =
      if key = wanted then some value else get? wanted entries :=
  get?_upsert key wanted _ entries

theorem get?_put_new (key wanted : κ) (value : α) (entries : List (κ × α)) :
    get? wanted (putNew key value entries) =
      if key = wanted then some ((get? key entries).getD value) else get? wanted entries :=
  get?_upsert key wanted _ entries

end ObjectShape.Entries
