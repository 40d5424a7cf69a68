import Mathlib.Data.List.Forall2
import ObjectShape.Proofs.Files.Names

/-!
# Snapshots

A snapshot is what files look like at one moment: what stands at a path, what reading it gives, and
what the names in a directory stand for. Files show a snapshot if asking them gives what it says and
changes nothing. A walk through a directory meets every file once, in an order that the snapshot
leaves open.
-/

namespace ObjectShape

set_option autoImplicit false

section Answers

variable {σ α β ε : Type}

/-- The action gives the answer and leaves the state as it is. -/
def Answers (action : StateM σ α) (state : σ) (answer : α) : Prop :=
  action.run state = (answer, state)

variable {state : σ}

theorem Answers.unique {action : StateM σ α} {answer other : α} (one : Answers action state answer)
    (two : Answers action state other) : answer = other :=
  congrArg Prod.fst (one.symm.trans two)

theorem answers_pure (answer : α) : Answers (pure answer : StateM σ α) state answer :=
  rfl

theorem answers_bind {action : StateM σ α} {next : α → StateM σ β} {middle : α} {answer : β}
    (first : Answers action state middle) (second : Answers (next middle) state answer) :
    Answers (action >>= next) state answer := by
  show (action >>= next).run state = (answer, state)
  rw [StateT.run_bind, first]
  exact second

/-- What an action that may fail does after a step that succeeded. -/
theorem answers_ok_bind {action : ExceptT ε (StateM σ) α} {next : α → ExceptT ε (StateM σ) β}
    {middle : α} {answer : Except ε β} (first : Answers action.run state (.ok middle))
    (second : Answers (next middle).run state answer) :
    Answers (action >>= next).run state answer := by
  rw [ExceptT.run_bind]
  exact answers_bind first second

theorem answers_error_bind {action : ExceptT ε (StateM σ) α} {next : α → ExceptT ε (StateM σ) β}
    {fault : ε} (first : Answers action.run state (.error fault)) :
    Answers (action >>= next).run state (.error fault) := by
  rw [ExceptT.run_bind]
  exact answers_bind first (answers_pure _)

theorem answers_lift {action : StateM σ α} {answer : α} (first : Answers action state answer) :
    Answers (action : ExceptT ε (StateM σ) α).run state (.ok answer) := by
  show Answers (Except.ok <$> action) state (.ok answer)
  rw [map_eq_pure_bind]
  exact answers_bind first (answers_pure _)

/-- What holds of every single result and is kept in sequences holds of a whole list of results. -/
theorem map_m_induction {m : Type → Type} [Monad m] [LawfulMonad m]
    (gives : {γ : Type} → m γ → γ → Prop)
    (ofPure : ∀ {γ : Type} (result : γ), gives (pure result) result)
    (ofBind : ∀ {γ δ : Type} {action : m γ} {next : γ → m δ} {middle : γ} {result : δ},
      gives action middle → gives (next middle) result → gives (action >>= next) result)
    {action : α → m β} {result : α → β} {items : List α}
    (each : ∀ item ∈ items, gives (action item) (result item)) :
    gives (items.mapM action) (items.map result) := by
  induction items with
  | nil =>
      rw [List.mapM_nil]
      exact ofPure []
  | cons item rest ih =>
      rw [List.mapM_cons, List.map_cons]
      have later := ih fun other member => each other (List.mem_cons_of_mem item member)
      exact ofBind (each item List.mem_cons_self) (ofBind later (ofPure _))

theorem answers_map_m {action : α → StateM σ β} {answer : α → β} {items : List α}
    (each : ∀ item ∈ items, Answers (action item) state (answer item)) :
    Answers (items.mapM action) state (items.map answer) :=
  map_m_induction (fun action result => Answers action state result) answers_pure answers_bind each

theorem answers_map_m_ok {action : α → ExceptT ε (StateM σ) β} {answer : α → β} {items : List α}
    (each : ∀ item ∈ items, Answers (action item).run state (.ok (answer item))) :
    Answers (items.mapM action).run state (.ok (items.map answer)) :=
  map_m_induction
    (fun (action : ExceptT ε (StateM σ) _) result => Answers action.run state (.ok result))
    (fun _ => answers_pure _) answers_ok_bind each

end Answers

structure Snapshot where
  kind? : String → Option FileKind
  read : String → Except FileFault String
  /-- What a name in a directory stands for, if that can be found out. Links are not followed. -/
  entryKind? : (directory : String) → (name : String) → Option FileKind
  named : ∀ {directory name : String} {kind : FileKind},
    entryKind? directory name = some kind → FilePath.IsName name

namespace Snapshot

/-- The names lead to a regular file, at any depth below the directory. -/
inductive Below (snapshot : Snapshot) : (directory : String) → List String → Prop
  | here {directory name : String} (file : snapshot.entryKind? directory name = some .file) :
      Below snapshot directory [name]
  | deeper {directory name : String} {rest : List String}
      (inside : snapshot.entryKind? directory name = some .directory)
      (below : Below snapshot (FilePath.child directory name) rest) :
      Below snapshot directory (name :: rest)

variable {snapshot : Snapshot} {directory : String} {names : List String}

theorem ne_nil_of_below (below : snapshot.Below directory names) : names ≠ [] := by
  cases below <;> exact List.cons_ne_nil _ _

theorem is_name_of_below (below : snapshot.Below directory names) :
    ∀ name ∈ names, FilePath.IsName name := by
  induction below with
  | here file => simpa using snapshot.named file
  | deeper inside below ih => exact List.forall_mem_cons.mpr ⟨snapshot.named inside, ih⟩

end Snapshot

/-- Asking the files gives what the snapshot says, whichever order a walk keeps. -/
structure Shows {σ : Type} (files : FileSystem (StateM σ)) (state : σ) (snapshot : Snapshot) :
    Prop where
  kind : ∀ path, Answers (files.kind? path) state (snapshot.kind? path)
  read : ∀ path, Answers (files.read path) state (snapshot.read path)
  walk : ∀ path, snapshot.kind? path = some .directory →
    ∃ found, Answers (files.filesBelow path) state found ∧ found.Nodup ∧
      ∀ names, names ∈ found ↔ snapshot.Below path names

end ObjectShape
