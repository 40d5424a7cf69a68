import Mathlib.Data.List.Nodup
import ObjectShape.Fault
import ObjectShape.Files.Tree
import ObjectShape.Proofs.Files.Snapshot

/-!
# Snapshots of files in memory

Files in memory show a snapshot of themselves, as long as no directory has two entries of one name
and all names are such as entries can have. A path below a directory is then found entry by entry.
-/

namespace ObjectShape

set_option autoImplicit false

namespace FileTree

/-- The names in every directory of the tree are names, and differ. -/
inductive Sound : FileTree → Prop
  | file (content : String) : Sound (.file content)
  | directory {entries : List (String × FileTree)} (apart : (Entries.keys entries).Nodup)
      (named : ∀ entry ∈ entries, FilePath.IsName entry.1)
      (inner : ∀ entry ∈ entries, Sound entry.2) : Sound (.directory entries)

theorem find_append (front back : List String) (root : FileTree) :
    find? (front ++ back) root = (find? front root).bind (find? back) := by
  induction front generalizing root with
  | nil => simp [find?]
  | cons name rest ih =>
      cases root with
      | file content => simp [find?]
      | directory entries => cases found : Entries.get? name entries <;> simp [find?, found, ih]

theorem follow_append (root : FileTree) (place front back : List String) :
    follow root place (front ++ back) =
      (follow root place front).bind fun middle => follow root middle back := by
  induction front generalizing place with
  | nil => simp [follow, Except.bind]
  | cons name rest ih =>
      cases standing : root.find? place.reverse with
      | none => simp [follow, standing, Except.bind]
      | some tree =>
          cases tree with
          | file content => simp [follow, standing, Except.bind]
          | directory entries =>
              simp only [List.cons_append, follow, standing, ih]
              split_ifs <;> rfl

/-- An empty name leads nowhere else. -/
theorem follow_nothing {root : FileTree} {place last : List String}
    (followed : follow root place [""] = .ok last) : last = place := by
  unfold follow at followed
  split at followed
  · cases followed
  · cases followed
  · rw [if_pos (by simp)] at followed
    exact (Except.ok.inj followed).symm

theorem follow_name {root : FileTree} {place : List String} {entries : List (String × FileTree)}
    {name : String} (standing : root.find? place.reverse = some (.directory entries))
    (valid : FilePath.IsName name) : follow root place [name] = .ok (name :: place) := by
  have named := valid.named
  simp only [List.mem_cons, List.not_mem_nil, or_false, not_or] at named
  simp [follow, standing, named]

theorem sound_of_find {root tree : FileTree} {names : List String} (sound : root.Sound)
    (found : root.find? names = some tree) : tree.Sound := by
  induction sound generalizing names with
  | file content =>
      cases names with
      | nil => exact Option.some.inj found ▸ .file content
      | cons name rest => cases found
  | directory apart named inner ih =>
      cases names with
      | nil => exact Option.some.inj found ▸ .directory apart named inner
      | cons name rest =>
          obtain ⟨inside, present, deeper⟩ := Option.bind_eq_some_iff.mp found
          exact ih _ (Entries.mem_of_get? present) deeper

/-- The files below a directory are those of its entries, with the entries' names before theirs. -/
theorem files_among_map (entries : List (String × FileTree)) :
    (filesAmong entries).map Prod.fst =
      entries.flatMap fun entry => (entry.2.files.map Prod.fst).map (entry.1 :: ·) := by
  induction entries with
  | nil => rfl
  | cons entry rest ih =>
      obtain ⟨name, tree⟩ := entry
      simp [filesAmong, ih, Function.comp_def]

theorem nodup_files {tree : FileTree} (sound : tree.Sound) :
    (tree.files.map Prod.fst).Nodup := by
  induction sound with
  | file content => simp [files]
  | @directory entries apart named inner ih =>
      rw [files, files_among_map, List.nodup_flatMap]
      refine ⟨fun entry member => (ih entry member).map (List.cons_injective), ?_⟩
      refine (List.pairwise_map.mp apart).imp ?_
      intro one other different names here there
      obtain ⟨_, _, rfl⟩ := List.mem_map.mp here
      obtain ⟨_, _, same⟩ := List.mem_map.mp there
      exact different (List.cons.inj same).1.symm

end FileTree

namespace Disk

def start (disk : Disk) (path : String) : List String :=
  if FilePath.isAbsolute path then [] else disk.current.reverse

theorem find_eq_ok_iff {disk : Disk} {path : String} {tree : FileTree} :
    disk.find path = .ok tree ↔
      path ≠ "" ∧ ∃ place, disk.root.follow (disk.start path) (FilePath.names path) = .ok place ∧
        disk.root.find? place.reverse = some tree := by
  by_cases empty : path = ""
  · simp [find, Disk.place, empty, bind, Except.bind, throw, throwThe, MonadExceptOf.throw]
  · have filled : path.isEmpty = false := by simpa [String.isEmpty_iff] using empty
    cases followed : disk.root.follow (disk.start path) (FilePath.names path) with
    | error fault =>
        unfold start at followed
        simp [find, Disk.place, filled, followed, bind, Except.bind]
    | ok place =>
        unfold start at followed
        cases standing : disk.root.find? place.reverse <;>
          simp [find, Disk.place, filled, followed, standing, empty, bind, Except.bind, pure,
            Except.pure, throw, throwThe, MonadExceptOf.throw]

theorem start_child {disk : Disk} {directory : String} (name : String) (filled : directory ≠ "") :
    disk.start (FilePath.child directory name) = disk.start directory := by
  have first : (FilePath.child directory name).toList.head? = directory.toList.head? := by
    obtain ⟨c, rest, chars⟩ := List.exists_cons_of_ne_nil
      (fun nothing => filled (String.toList_eq_nil_iff.mp nothing) : directory.toList ≠ [])
    unfold FilePath.child
    split <;> simp [String.toList_append, chars]
  have same : FilePath.isAbsolute (FilePath.child directory name) =
      FilePath.isAbsolute directory := by
    rw [FilePath.isAbsolute, first, FilePath.isAbsolute]
  rw [start, start, same]

/-- A path to an entry leads there by way of its directory. -/
theorem find_child {disk : Disk} {directory name : String} {entries : List (String × FileTree)}
    (found : disk.find directory = .ok (.directory entries)) (valid : FilePath.IsName name)
    (tree : FileTree) :
    disk.find (FilePath.child directory name) = .ok tree ↔
      Entries.get? name entries = some tree := by
  obtain ⟨filled, place, followed, standing⟩ := find_eq_ok_iff.mp found
  have there : disk.root.follow (disk.start directory) (FilePath.stem directory) = .ok place := by
    rcases FilePath.names_eq_stem directory with whole | slashed
    · rw [← whole, followed]
    · rw [slashed, FileTree.follow_append] at followed
      obtain ⟨middle, before, last⟩ := bind_eq_ok_iff.mp followed
      rw [before, FileTree.follow_nothing last]
  have walked : disk.root.follow (disk.start (FilePath.child directory name))
      (FilePath.names (FilePath.child directory name)) = .ok (name :: place) := by
    rw [start_child name filled, FilePath.names_child directory valid, FileTree.follow_append, there]
    exact FileTree.follow_name standing valid
  have present : disk.root.find? (name :: place).reverse = Entries.get? name entries := by
    rw [List.reverse_cons, FileTree.find_append, standing]
    cases inside : Entries.get? name entries <;> simp [FileTree.find?, inside]
  rw [find_eq_ok_iff, walked]
  simp only [FilePath.child_ne_empty directory valid, ne_eq, not_false_eq_true, true_and,
    Except.ok.injEq, exists_eq_left', present]

def snapshot (disk : Disk) (sound : disk.root.Sound) : Snapshot where
  kind? path := (disk.find path).toOption.map FileTree.kind
  read := disk.read
  entryKind? directory name :=
    match disk.find directory with
    | .ok (.directory entries) => (Entries.get? name entries).map FileTree.kind
    | _ => none
  named := by
    intro directory name kind entry
    split at entry
    · rename_i entries found
      obtain ⟨tree, present, -⟩ := Option.map_eq_some_iff.mp entry
      obtain ⟨-, place, -, standing⟩ := find_eq_ok_iff.mp found
      cases FileTree.sound_of_find sound standing with
      | directory apart named inner => exact named _ (Entries.mem_of_get? present)
    · cases entry

theorem entry_of_found {disk : Disk} (sound : disk.root.Sound) {directory : String}
    {entries : List (String × FileTree)} (found : disk.find directory = .ok (.directory entries))
    (name : String) :
    (disk.snapshot sound).entryKind? directory name = (Entries.get? name entries).map FileTree.kind := by
  simp only [snapshot, found]

/-- The files of a tree are the files below the path that leads to it. -/
theorem mem_files_iff_below {disk : Disk} (sound : disk.root.Sound) {tree : FileTree}
    (tidy : tree.Sound) {directory : String} (found : disk.find directory = .ok tree)
    (kind : tree.kind = .directory) (names : List String) :
    names ∈ tree.files.map Prod.fst ↔ (disk.snapshot sound).Below directory names := by
  induction tidy generalizing directory names with
  | file content => cases kind
  | @directory entries apart named inner ih =>
      have entry := entry_of_found sound found
      have child : ∀ {name tree}, (name, tree) ∈ entries →
          disk.find (FilePath.child directory name) = .ok tree := fun member =>
        (find_child found (named _ member) _).mpr ((Entries.get?_eq_some_iff_mem apart).mpr member)
      rw [FileTree.files, FileTree.files_among_map, List.mem_flatMap]
      constructor
      · rintro ⟨⟨name, tree⟩, member, inside⟩
        obtain ⟨rest, below, rfl⟩ := List.mem_map.mp inside
        have present := (Entries.get?_eq_some_iff_mem apart).mpr member
        cases tree with
        | file content =>
            obtain rfl : rest = [] := by simpa [FileTree.files] using below
            exact .here (by rw [entry, present]; rfl)
        | directory entries' =>
            refine .deeper (by rw [entry, present]; rfl) ?_
            exact (ih _ member (child member) rfl rest).mp below
      · intro below
        cases below with
        | @here _ name file =>
            obtain ⟨tree, present, kind⟩ := Option.map_eq_some_iff.mp (entry name ▸ file)
            refine ⟨(name, tree), Entries.mem_of_get? present, ?_⟩
            cases tree with
            | file content => simp [FileTree.files]
            | directory entries' => cases kind
        | @deeper _ name rest inside below =>
            obtain ⟨tree, present, kind⟩ := Option.map_eq_some_iff.mp (entry name ▸ inside)
            have member := Entries.mem_of_get? present
            exact ⟨(name, tree), member, List.mem_map.mpr
              ⟨rest, (ih _ member (child member) kind rest).mpr below, rfl⟩⟩

/-- A disk shows its snapshot, and a walk through it has an order of its own. -/
theorem disk_shows (disk : Disk) (sound : disk.root.Sound) :
    Shows fileSystem disk (disk.snapshot sound) where
  kind _ := rfl
  read _ := rfl
  walk path directory := by
    obtain ⟨tree, found, kind⟩ := Option.map_eq_some_iff.mp directory
    have standing : disk.find path = .ok tree := by
      cases result : disk.find path with
      | error fault => simp [result, Except.toOption] at found
      | ok tree' => simpa [result, Except.toOption] using found
    obtain ⟨-, place, -, rooted⟩ := find_eq_ok_iff.mp standing
    have tidy := FileTree.sound_of_find sound rooted
    refine ⟨tree.files.map Prod.fst, ?_, FileTree.nodup_files tidy,
      mem_files_iff_below sound tidy standing kind⟩
    show fileSystem.filesBelow path disk = _
    simp only [fileSystem, standing]

end Disk

end ObjectShape
