import Mathlib.Logic.Relation
import ObjectShape.Proofs.Memo
import ObjectShape.Proofs.Value.Heap
import ObjectShape.Workspace

/-!
# Histories of a workspace

A history is what becomes of an empty workspace when values are named and let go, compilers made and
copied, and objects compiled, inserted, asked for and forgotten. Beside the workspace it keeps a log of
what was inserted into one memo since that was last cleared, newest first. The log is written down from
the actions alone: a compilation is an insertion if the object had no entry and compiled.
-/

namespace ObjectShape

set_option autoImplicit false

variable {φ : Type}

structure Insertion (φ : Type) where
  source : ObjectRef
  handle : Handle φ
  alive : List ObjectRef
  /-- Whether the handle is the compilation of the source, and not given by hand. -/
  compiled : Bool

def mostRecent (source : ObjectRef) (log : List (Insertion φ)) : Option (Handle φ) :=
  (log.find? fun insertion => insertion.source = source).map Insertion.handle

/-- The object was inserted, and dead when a later insertion was made. -/
def FoundDead (source : ObjectRef) (log : List (Insertion φ)) : Prop :=
  ∃ newer insertion older, log = newer ++ insertion :: older ∧
    source ∈ older.map Insertion.source ∧ source ∉ insertion.alive

theorem most_recent_cons (source : ObjectRef) (insertion : Insertion φ)
    (log : List (Insertion φ)) :
    mostRecent source (insertion :: log) =
      if insertion.source = source then some insertion.handle else mostRecent source log := by
  by_cases same : insertion.source = source <;> simp [mostRecent, same]

theorem most_recent_append {source : ObjectRef} {newer log : List (Insertion φ)}
    (others : source ∉ newer.map Insertion.source) :
    mostRecent source (newer ++ log) = mostRecent source log := by
  induction newer with
  | nil => rfl
  | cons insertion rest ih =>
      obtain ⟨different, later⟩ := not_or.mp (mt List.mem_cons.mpr others)
      rw [List.cons_append, most_recent_cons, if_neg (fun same => different same.symm), ih later]

theorem exists_of_most_recent {source : ObjectRef} {handle : Handle φ}
    {log : List (Insertion φ)} (recent : mostRecent source log = some handle) :
    ∃ insertion ∈ log, insertion.source = source ∧ insertion.handle = handle := by
  obtain ⟨insertion, found, same⟩ := Option.map_eq_some_iff.mp recent
  exact ⟨insertion, List.mem_of_find?_eq_some found, by simpa using List.find?_some found, same⟩

theorem most_recent_is_some_iff {source : ObjectRef} {log : List (Insertion φ)} :
    (∃ handle, mostRecent source log = some handle) ↔ source ∈ log.map Insertion.source := by
  constructor
  · rintro ⟨handle, recent⟩
    obtain ⟨insertion, member, rfl, _⟩ := exists_of_most_recent recent
    exact List.mem_map_of_mem member
  · intro inserted
    obtain ⟨insertion, member, rfl⟩ := List.mem_map.mp inserted
    have found : (log.find? fun other => other.source = insertion.source).isSome :=
      List.find?_isSome.mpr ⟨insertion, member, by simp⟩
    obtain ⟨other, found⟩ := Option.isSome_iff_exists.mp found
    exact ⟨other.handle, by rw [mostRecent, found]; rfl⟩

theorem inserted_of_found_dead {source : ObjectRef} {log : List (Insertion φ)}
    (dead : FoundDead source log) : source ∈ log.map Insertion.source := by
  obtain ⟨newer, insertion, older, rfl, member, _⟩ := dead
  simp only [List.map_append, List.map_cons, List.mem_append, List.mem_cons]
  exact .inr (.inr member)

theorem found_dead_cons (source : ObjectRef) (insertion : Insertion φ)
    (log : List (Insertion φ)) :
    FoundDead source (insertion :: log) ↔
      FoundDead source log ∨ source ∈ log.map Insertion.source ∧ source ∉ insertion.alive := by
  constructor
  · rintro ⟨newer, found, older, split, member, dead⟩
    cases newer with
    | nil =>
        obtain ⟨rfl, rfl⟩ := List.cons.inj split
        exact .inr ⟨member, dead⟩
    | cons first newer =>
        obtain ⟨_, split⟩ := List.cons.inj split
        exact .inl ⟨newer, found, older, split, member, dead⟩
  · rintro (⟨newer, found, older, split, member, dead⟩ | ⟨member, dead⟩)
    · exact ⟨insertion :: newer, found, older, by rw [split]; rfl, member, dead⟩
    · exact ⟨[], insertion, log, rfl, member, dead⟩

namespace Workspace

def pool (workspace : Workspace φ) : List (Value φ) :=
  workspace.values.map Prod.snd

theorem mem_alive_iff {workspace : Workspace φ} {ref : ObjectRef} :
    ref ∈ workspace.alive ↔ ∃ fields, Lives workspace.pool ref fields := by
  rw [alive, List.mem_flatMap]
  constructor
  · rintro ⟨entry, member, reached⟩
    obtain ⟨fields, held⟩ := Value.mem_reaches_iff.mp reached
    exact ⟨fields, entry.2, List.mem_map_of_mem member, held⟩
  · rintro ⟨fields, value, named, held⟩
    obtain ⟨entry, member, rfl⟩ := List.mem_map.mp named
    exact ⟨entry, member, Value.mem_reaches_iff.mpr ⟨fields, held⟩⟩

def Offers (workspace : Workspace φ) (compiler : Compiler) : Prop :=
  ∃ name, workspace.compiler? name = some compiler

def counted (workspace : Workspace φ) : Workspace φ :=
  { workspace with heap := (Heap.newSerial.run workspace.heap).2 }

theorem set_memo_eq (compiler : Compiler) (memo : Memo φ) (workspace : Workspace φ) :
    workspace.setMemo compiler memo =
      { workspace with memos := (workspace.setMemo compiler memo).memos } := by
  unfold setMemo
  split <;> rfl

theorem remember_eq (compiler : Compiler) (source : ObjectRef) (handle : Handle φ)
    (workspace : Workspace φ) :
    workspace.remember compiler source handle =
      { workspace with memos := (workspace.remember compiler source handle).memos } := by
  unfold remember
  split
  · exact set_memo_eq ..
  · rfl

theorem forget_eq (compiler : Compiler) (workspace : Workspace φ) :
    workspace.forget compiler = { workspace with memos := (workspace.forget compiler).memos } := by
  unfold forget
  split
  · exact set_memo_eq ..
  · rfl

/-- The workspace with another memo in the place of the compiler's, if the compiler has one. -/
def withMemo (compiler : Compiler) (memo : Option (Memo φ)) (workspace : Workspace φ) :
    Workspace φ :=
  match memo with
  | some memo => workspace.setMemo compiler memo
  | none => workspace

theorem with_memo_memo_of (compiler : Compiler) (workspace : Workspace φ) :
    workspace.withMemo compiler (workspace.memoOf compiler) = workspace := by
  cases found : workspace.memoOf compiler with
  | none => rfl
  | some memo =>
      obtain ⟨index, place, found⟩ := Option.bind_eq_some_iff.mp found
      obtain ⟨bound, rfl⟩ := List.getElem?_eq_some_iff.mp found
      rw [withMemo, setMemo, place]
      simp only [List.set_getElem_self]

theorem remember_eq_with_memo (compiler : Compiler) (source : ObjectRef) (handle : Handle φ)
    (workspace : Workspace φ) :
    workspace.remember compiler source handle =
      workspace.withMemo compiler
        ((workspace.memoOf compiler).map (Memo.insert workspace.alive source handle)) := by
  unfold remember
  cases workspace.memoOf compiler <;> rfl

theorem compile_eq_map (compiler : Compiler) (value : Value φ) (workspace : Workspace φ) :
    workspace.compile compiler value =
      (compileWith compiler.settings.emptySchema workspace.alive workspace.heap.nextSerial value
        (workspace.memoOf compiler)).map fun outcome =>
          (outcome.1, workspace.counted.withMemo compiler outcome.2) := by
  have serial : Heap.newSerial.run workspace.heap =
      (workspace.heap.nextSerial, workspace.counted.heap) := rfl
  simp only [compile, serial]
  cases compileWith compiler.settings.emptySchema workspace.alive workspace.heap.nextSerial value
      (workspace.memoOf compiler) with
  | error fault => rfl
  | ok outcome =>
      obtain ⟨handle, memo⟩ := outcome
      cases memo <;> rfl

/-- A compilation answers from the memo if it can; only if it cannot, and the object compiles, does it
insert. -/
theorem compile_eq (compiler : Compiler) (value : Value φ) (workspace : Workspace φ) :
    workspace.compile compiler value =
      match value with
      | .schematic handle => .ok (handle, workspace.counted)
      | .object source _ =>
          match workspace.remembered? compiler source with
          | some handle => .ok (handle, workspace.counted)
          | none =>
              (compileObject compiler.settings.emptySchema value).map fun shape =>
                let handle : Handle φ := { serial := workspace.heap.nextSerial, shape }
                (handle, workspace.counted.remember compiler source handle)
      | _ => .error .invalidSchema := by
  have unchanged : workspace.counted.withMemo compiler (workspace.memoOf compiler) =
      workspace.counted := with_memo_memo_of compiler workspace.counted
  rw [compile_eq_map]
  cases value with
  | schematic handle => simp only [compileWith, Except.map, unchanged]
  | object source fields =>
      have looked : (workspace.memoOf compiler).bind (Memo.get? source) =
          workspace.remembered? compiler source := rfl
      simp only [compileWith, looked]
      cases workspace.remembered? compiler source with
      | some handle => simp only [Except.map, unchanged]
      | none =>
          cases compileObject compiler.settings.emptySchema (.object source fields) with
          | error fault => rfl
          | ok shape =>
              simp only [Except.map, remember_eq_with_memo]
              rfl
  | _ => rfl

theorem compile_eq_error {workspace : Workspace φ} {compiler : Compiler} {raw : Value φ}
    {fault : SchemaFault} (failed : workspace.compile compiler raw = .error fault) :
    compileWith compiler.settings.emptySchema workspace.alive workspace.heap.nextSerial raw
      (workspace.memoOf compiler) = .error fault := by
  rw [compile_eq_map] at failed
  cases outcome : compileWith compiler.settings.emptySchema workspace.alive
      workspace.heap.nextSerial raw (workspace.memoOf compiler) with
  | error other =>
      rw [outcome] at failed
      cases failed
      rfl
  | ok result =>
      rw [outcome] at failed
      cases failed

end Workspace

/-- What users of a workspace do. A value is named together with the heap it was built on. -/
inductive Action (φ : Type) where
  | bind (name : String) (value : Value φ) (heap : Heap)
  | drop (name : String)
  | newCompiler (name : String) (settings : CompilerSettings)
  | cloneCompiler (name : String) (compiler : Compiler)
  | compile (compiler : Compiler) (raw : Value φ)
  | insert (compiler : Compiler) (source : ObjectRef) (handle : Handle φ)
  | get (compiler : Compiler) (source : ObjectRef)
  | clear (compiler : Compiler)

namespace Workspace

/-- Values are built of what is at hand, compilers are those that have a name, and objects are
compiled, inserted and asked for while they are alive. -/
def Allows (workspace : Workspace φ) : Action φ → Prop
  | .bind _ value heap =>
      ∃ atHand, Making workspace.heap workspace.pool heap atHand ∧ MadeOf atHand value
  | .drop _ | .newCompiler _ _ => True
  | .cloneCompiler _ compiler | .clear compiler => workspace.Offers compiler
  | .compile compiler raw => workspace.Offers compiler ∧ MadeOf workspace.pool raw
  | .insert compiler source _ | .get compiler source =>
      workspace.Offers compiler ∧ source ∈ workspace.alive

/-- A compilation that fails leaves the workspace as it is. -/
def perform (workspace : Workspace φ) : Action φ → Workspace φ
  | .bind name value heap => workspace.bindValue name value heap
  | .drop name => workspace.dropValue name
  | .newCompiler name settings => workspace.newCompiler name settings
  | .cloneCompiler name compiler => workspace.cloneCompiler name compiler
  | .compile compiler raw =>
      match workspace.compile compiler raw with
      | .ok (_, after) => after
      | .error _ => workspace
  | .insert compiler source handle => workspace.remember compiler source handle
  | .get _ _ => workspace
  | .clear compiler => workspace.forget compiler

end Workspace

namespace Action

def memo? : Action φ → Option Nat
  | .compile compiler _ | .insert compiler _ _ | .get compiler _ | .clear compiler => compiler.memo
  | .bind _ _ _ | .drop _ | .newCompiler _ _ | .cloneCompiler _ _ => none

/-- What the action inserts: what it is given to insert, or the compilation of an object that the
compiler does not remember. -/
def insertion? (workspace : Workspace φ) : Action φ → Option (Insertion φ)
  | .insert _ source handle => some { source, handle, alive := workspace.alive, compiled := false }
  | .compile compiler (.object source fields) =>
      match workspace.remembered? compiler source,
          workspace.compile compiler (.object source fields) with
      | none, .ok (handle, _) =>
          some { source, handle, alive := workspace.alive, compiled := true }
      | _, _ => none
  | _ => none

def logged (index : Nat) (workspace : Workspace φ) (log : List (Insertion φ))
    (action : Action φ) : List (Insertion φ) :=
  if action.memo? = some index then
    match action with
    | .clear _ => []
    | action => (action.insertion? workspace).toList ++ log
  else log

end Action

structure Moment (φ : Type) where
  workspace : Workspace φ := {}
  log : List (Insertion φ) := []

def Moment.after (index : Nat) (action : Action φ) (moment : Moment φ) : Moment φ :=
  { workspace := moment.workspace.perform action
    log := action.logged index moment.workspace moment.log }

inductive Follows (index : Nat) : Moment φ → Moment φ → Prop where
  | action {moment : Moment φ} (action : Action φ) (allowed : moment.workspace.Allows action) :
      Follows index moment (moment.after index action)

def Leads (index : Nat) : Moment φ → Moment φ → Prop :=
  Relation.ReflTransGen (Follows index)

def History (index : Nat) (moment : Moment φ) : Prop :=
  Leads index {} moment

/-- What every action preserves holds at the end of every history. -/
@[elab_as_elim]
theorem History.induct {index : Nat} {motive : Moment φ → Prop} {moment : Moment φ}
    (history : History index moment) (start : motive {})
    (step : ∀ (earlier : Moment φ) (action : Action φ), earlier.workspace.Allows action →
      motive earlier → motive (earlier.after index action)) : motive moment := by
  refine Relation.ReflTransGen.rec ?_ ?_ history
  · exact start
  · rintro _ _ _ ⟨action, allowed⟩ kept
    exact step _ action allowed kept

namespace Moment

def replay (index : Nat) (moment : Moment φ) : List (Action φ) → Moment φ
  | [] => moment
  | action :: rest => (moment.after index action).replay index rest

def Permits (index : Nat) (moment : Moment φ) : List (Action φ) → Prop
  | [] => True
  | action :: rest => moment.workspace.Allows action ∧ (moment.after index action).Permits index rest

theorem leads_of_permits {index : Nat} {moment : Moment φ} {actions : List (Action φ)}
    (permitted : moment.Permits index actions) :
    Leads index moment (moment.replay index actions) := by
  induction actions generalizing moment with
  | nil => exact .refl
  | cons action rest ih =>
      obtain ⟨allowed, later⟩ := permitted
      exact .head (.action action allowed) (ih later)

end Moment

namespace Workspace

/-- What a compilation does to the workspace, and what it inserts. -/
theorem perform_compile (compiler : Compiler) (raw : Value φ) (workspace : Workspace φ) :
    (∃ source fields shape, raw = .object source fields ∧
      workspace.remembered? compiler source = none ∧
      compileObject compiler.settings.emptySchema raw = .ok shape ∧
      (Action.compile compiler raw).insertion? workspace =
        some { source
               handle := { serial := workspace.heap.nextSerial, shape }
               alive := workspace.alive
               compiled := true } ∧
      workspace.perform (.compile compiler raw) =
        workspace.counted.remember compiler source
          { serial := workspace.heap.nextSerial, shape }) ∨
    ((Action.compile compiler raw).insertion? workspace = none ∧
      (workspace.perform (.compile compiler raw) = workspace ∨
        workspace.perform (.compile compiler raw) = workspace.counted)) := by
  have outcome := compile_eq compiler raw workspace
  cases raw with
  | object source fields =>
      cases known : workspace.remembered? compiler source with
      | some handle =>
          simp only [known] at outcome
          right
          simp [Action.insertion?, perform, known, outcome]
      | none =>
          cases compiled : compileObject compiler.settings.emptySchema (.object source fields) with
          | error fault =>
              simp only [known, compiled, Except.map] at outcome
              right
              simp [Action.insertion?, perform, known, outcome]
          | ok shape =>
              simp only [known, compiled, Except.map] at outcome
              left
              refine ⟨source, fields, shape, rfl, known, rfl, ?_, ?_⟩
              · simp [Action.insertion?, known, outcome]
              · simp [perform, outcome]
  | _ =>
      right
      simp [Action.insertion?, perform, outcome]

end Workspace

end ObjectShape
