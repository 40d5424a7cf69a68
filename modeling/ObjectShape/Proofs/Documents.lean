import Mathlib.Data.List.Forall2
import Mathlib.Data.List.Sort
import ObjectShape.Documents
import ObjectShape.Proofs.Files.Snapshot
import ObjectShape.Proofs.Json.Distinct
import ObjectShape.Proofs.Shape.Composition

/-!
# Documents of a snapshot

Which documents paths stand for, which of them load and which schemas compile, as a snapshot has it.
The order of the documents below a directory is the order of their paths, so it is one and the same
for all file systems that show the snapshot.
-/

namespace ObjectShape

set_option autoImplicit false

namespace Document

theorem is_document_iff (names : List String) :
    isDocument names = true ↔
      ∃ above name front, names = above ++ [name] ∧ front ≠ "" ∧ name = front ++ ".json" := by
  rw [isDocument, Option.any_eq_true]
  constructor
  · rintro ⟨name, last, extended⟩
    obtain ⟨_, _, front, filled, spelled⟩ :=
      (FilePath.extension_eq_some_iff name "json").mp (by simpa using extended)
    obtain ⟨above, rfl⟩ := List.getLast?_eq_some_iff.mp last
    exact ⟨above, name, front, rfl, filled, by rw [spelled, String.append_assoc]; rfl⟩
  · rintro ⟨above, name, front, rfl, filled, spelled⟩
    refine ⟨name, by simp, ?_⟩
    rw [beq_iff_eq, FilePath.extension_eq_some_iff]
    refine ⟨?_, by decide, front, filled, by rw [spelled, String.append_assoc]; rfl⟩
    intro dots
    have last : (front ++ ".json").toList.getLast? = "..".toList.getLast? := by rw [← spelled, dots]
    simp [String.toList_append] at last

theorem mem_in_order_iff (found : List (List String)) (names : List String) :
    names ∈ inOrder found ↔ names ∈ found ∧ isDocument names = true := by
  rw [inOrder, List.mem_mergeSort, List.mem_filter]

theorem in_order_ascending {found : List (List String)} (once : found.Nodup) :
    (inOrder found).Pairwise (· < ·) := by
  have sorted : (inOrder found).Pairwise fun left right => FilePath.noLater left right = true := by
    refine List.pairwise_mergeSort ?_ ?_ _
    · intro first second third
      simp only [FilePath.no_later_iff]
      exact le_trans
    · intro first second
      rw [Bool.or_eq_true, FilePath.no_later_iff, FilePath.no_later_iff]
      exact le_total first second
  have apart : (inOrder found).Nodup :=
    (List.mergeSort_perm _ _).nodup_iff.mpr (once.filter _)
  refine (sorted.and apart).imp ?_
  rintro left right ⟨upTo, different⟩
  exact lt_of_le_of_ne ((FilePath.no_later_iff left right).mp upTo) different

variable {φ : Type}

theorem distinct_of_text {path text : String} {value : Value φ}
    (read : ofText path text = .ok value) : value.EveryLevel List.Nodup := by
  unfold ofText at read
  split at read
  · next json parsed =>
      cases read
      exact (Json.is_distinct_of_read parsed).distinct {}
  · exact nomatch read

def indexedOfText (path text : String) : Except DocumentFault (Value.Indexed φ) :=
  match read : ofText path text with
  | .ok value => .ok ⟨value, distinct_of_text read⟩
  | .error fault => .error fault

theorem indexed_of_text (path text : String) :
    (indexedOfText path text).map Value.Indexed.value =
      (ofText path text : Except DocumentFault (Value φ)) := by
  rw [indexedOfText]
  split
  · next read => exact read.symm
  · next read => exact read.symm

end Document

namespace Snapshot

section Collecting

/-- A regular file at any depth below the directory, by its name a JSON document: something stands
before the extension. -/
def HasDocument (snapshot : Snapshot) (directory document : String) : Prop :=
  ∃ above name front, snapshot.Below directory (above ++ [name]) ∧ front ≠ "" ∧
    name = front ++ ".json" ∧ document = FilePath.descend directory (above ++ [name])

/-- The documents that a path stands for: itself, or everything below it in the order of the paths,
name by name. -/
inductive StandsFor (snapshot : Snapshot) (path : String) : List String → Prop
  | itself (single : snapshot.kind? path ≠ some .directory) : StandsFor snapshot path [path]
  | below {documents : List String} (directory : snapshot.kind? path = some .directory)
      (ascending : documents.Pairwise fun earlier later =>
        FilePath.names earlier < FilePath.names later)
      (all : ∀ document, document ∈ documents ↔ snapshot.HasDocument path document) :
      StandsFor snapshot path documents

def Gathers (snapshot : Snapshot) (paths documents : List String) : Prop :=
  ∃ groups, List.Forall₂ snapshot.StandsFor paths groups ∧ documents = groups.flatten

variable {snapshot : Snapshot}

theorem stands_for_unique : Relator.RightUnique snapshot.StandsFor := by
  intro path documents others one two
  cases one with
  | itself single =>
      cases two with
      | itself => rfl
      | below directory => exact absurd directory single
  | below directory ascending all =>
      cases two with
      | itself single => exact absurd directory single
      | below _ ascending' all' =>
          let before (earlier later : String) := FilePath.names earlier < FilePath.names later
          have : Std.Irrefl before := ⟨fun document => lt_irrefl (FilePath.names document)⟩
          have : Std.Antisymm before := ⟨fun _ _ less more => absurd more (lt_asymm less)⟩
          exact List.Pairwise.eq_of_mem_iff ascending ascending' fun document =>
            (all document).trans (all' document).symm

theorem gathers_unique {paths documents others : List String}
    (one : snapshot.Gathers paths documents) (two : snapshot.Gathers paths others) :
    documents = others := by
  obtain ⟨groups, each, rfl⟩ := one
  obtain ⟨groups', each', rfl⟩ := two
  rw [List.right_unique_forall₂' stands_for_unique each each']

theorem subset_of_gathers {paths documents : List String} (gathers : snapshot.Gathers paths documents)
    {path : String} (member : path ∈ paths) :
    ∃ group, snapshot.StandsFor path group ∧ group ⊆ documents := by
  obtain ⟨groups, each, rfl⟩ := gathers
  induction each with
  | nil => cases member
  | cons stands each ih =>
      rcases List.mem_cons.mp member with rfl | later
      · exact ⟨_, stands, List.subset_append_left _ _⟩
      · obtain ⟨group, stands', inside⟩ := ih later
        exact ⟨group, stands', List.subset_append_of_subset_right _ inside⟩

/-- What a walk finds stands for the directory once it is in order. -/
theorem stands_for_in_order {path : String} {found : List (List String)}
    (directory : snapshot.kind? path = some .directory) (once : found.Nodup)
    (complete : ∀ names, names ∈ found ↔ snapshot.Below path names) :
    snapshot.StandsFor path ((Document.inOrder found).map (FilePath.descend path)) := by
  refine .below directory ?_ ?_
  · rw [List.pairwise_map]
    refine (Document.in_order_ascending once).imp_of_mem ?_
    intro earlier later here there ascending
    have below := (complete earlier).mp ((Document.mem_in_order_iff found earlier).mp here).1
    have below' := (complete later).mp ((Document.mem_in_order_iff found later).mp there).1
    rw [FilePath.names_descend path (ne_nil_of_below below) (is_name_of_below below),
      FilePath.names_descend path (ne_nil_of_below below') (is_name_of_below below')]
    exact List.append_left_lt ascending
  · intro document
    simp only [List.mem_map, Document.mem_in_order_iff, complete, Document.is_document_iff]
    constructor
    · rintro ⟨_, ⟨below, above, name, front, rfl, filled, spelled⟩, rfl⟩
      exact ⟨above, name, front, below, filled, spelled, rfl⟩
    · rintro ⟨above, name, front, below, filled, spelled, rfl⟩
      exact ⟨_, ⟨below, above, name, front, rfl, filled, spelled⟩, rfl⟩

end Collecting

section Loading

variable {φ : Type}

def Loads (snapshot : Snapshot) (path : String) (value : Value φ) : Prop :=
  ∃ text json, snapshot.read path = .ok text ∧ Json.read text = .ok json ∧
    value = (json.toValue.run {}).1

def Compiles (snapshot : Snapshot) (policy : EmptyPolicy) (path : String) (shape : Shape φ) : Prop :=
  ∃ value declaration, snapshot.Loads path value ∧ Declaration.ofValue value = .ok declaration ∧
    declaration.compile policy = .ok shape

def loaded (snapshot : Snapshot) (path : String) : Except DocumentFault (Value φ) :=
  match snapshot.read path with
  | .ok text => Document.ofText path text
  | .error fault => .error (.unreadable fault)

def compiled (snapshot : Snapshot) (policy : EmptyPolicy) (path : String) :
    Except DocumentFault (Handle φ) :=
  (snapshot.loaded path).bind (Document.schemaOf policy path)

variable {snapshot : Snapshot} {path : String}

theorem loaded_eq_ok_iff {value : Value φ} :
    snapshot.loaded path = .ok value ↔ snapshot.Loads path value := by
  unfold loaded Loads Document.ofText
  cases contents : snapshot.read path with
  | error fault => simp
  | ok text => cases parsed : Json.read text <;> simp [parsed, eq_comm]

/-- No JSON text stands for a schematic, and what is no object is no schema. -/
theorem compile_loaded_eq_ok_iff {policy : EmptyPolicy} {value : Value φ} {handle : Handle φ}
    (loads : snapshot.Loads path value) :
    compileFresh policy 0 value = .ok handle ↔
      ∃ shape, compileObject policy value = .ok shape ∧ ⟨0, shape⟩ = handle := by
  obtain ⟨text, json, -, -, rfl⟩ := loads
  cases json with
  | object fields => exact compile_fresh_eq_ok_iff
  | _ => exact ⟨nofun, nofun⟩

theorem schema_of_eq_ok_iff {policy : EmptyPolicy} {value : Value φ} {handle : Handle φ} :
    Document.schemaOf policy path value = .ok handle ↔
      compileFresh policy 0 value = .ok handle := by
  unfold Document.schemaOf
  cases compileFresh policy 0 value <;> simp [Except.mapError]

theorem compiles_iff {policy : EmptyPolicy} {shape : Shape φ} :
    snapshot.Compiles policy path shape ↔
      ∃ handle, snapshot.compiled policy path = .ok handle ∧ handle.shape = shape := by
  constructor
  · rintro ⟨value, declaration, loads, read, built⟩
    have made : compileObject policy value = .ok shape := by
      rw [compileObject, read]
      exact built
    refine ⟨⟨0, shape⟩, ?_, rfl⟩
    rw [compiled, loaded_eq_ok_iff.mpr loads]
    exact schema_of_eq_ok_iff.mpr ((compile_loaded_eq_ok_iff loads).mpr ⟨shape, made, rfl⟩)
  · rintro ⟨handle, made, rfl⟩
    obtain ⟨value, loading, compiling⟩ := bind_eq_ok_iff.mp made
    have loads := loaded_eq_ok_iff.mp loading
    obtain ⟨shape, parsed, rfl⟩ :=
      (compile_loaded_eq_ok_iff loads).mp (schema_of_eq_ok_iff.mp compiling)
    obtain ⟨declaration, read, built⟩ := bind_eq_ok_iff.mp parsed
    exact ⟨value, declaration, loads, read, built⟩

end Loading

end Snapshot

namespace Document

variable {σ φ : Type} {files : FileSystem (StateM σ)} {state : σ} {snapshot : Snapshot}

theorem load_answers (shows : Shows files state snapshot) (path : String) :
    Answers (load files path : StateM σ (Except DocumentFault (Value φ))) state
      (snapshot.loaded path) := by
  refine answers_bind (shows.read path) ?_
  unfold Snapshot.loaded
  cases snapshot.read path <;> exact answers_pure _

theorem load_schema_answers (shows : Shows files state snapshot) (policy : EmptyPolicy)
    (path : String) :
    Answers (loadSchema files policy path : StateM σ (Except DocumentFault (Handle φ))) state
      (snapshot.compiled policy path) :=
  answers_bind (load_answers shows path) (answers_pure _)

theorem collect_at_answers (shows : Shows files state snapshot) (path : String) :
    ∃ documents, Answers (collectAt files path) state documents ∧
      snapshot.StandsFor path documents := by
  have asked : Answers (files.isDirectory path) state (snapshot.kind? path == some .directory) :=
    answers_bind (shows.kind path) (answers_pure _)
  by_cases directory : snapshot.kind? path = some .directory
  · obtain ⟨found, walked, once, complete⟩ := shows.walk path directory
    refine ⟨(inOrder found).map (FilePath.descend path), ?_,
      Snapshot.stands_for_in_order directory once complete⟩
    refine answers_bind asked ?_
    rw [if_pos (by simp [directory])]
    exact answers_bind walked (answers_pure _)
  · refine ⟨[path], ?_, .itself directory⟩
    refine answers_bind asked ?_
    rw [if_neg (by simp [directory])]
    exact answers_pure _

theorem collect_answers (shows : Shows files state snapshot) (paths : List String) :
    ∃ documents, Answers (collect files paths) state documents ∧
      snapshot.Gathers paths documents := by
  choose group answered stands using collect_at_answers shows
  have each : List.Forall₂ snapshot.StandsFor paths (paths.map group) := by
    rw [List.forall₂_map_right_iff, List.forall₂_same]
    exact fun path _ => stands path
  refine ⟨(paths.map group).flatten, ?_, _, each, rfl⟩
  exact answers_bind (answers_map_m fun path _ => answered path) (answers_pure _)

end Document

end ObjectShape
