import Mathlib
import ObjectShape.Proofs.Workspace.Ageing

/-!
# What a memo remembers

After every history the entries of a memo are what its log tells: the objects that were inserted and
that no later insertion found dead, each with what was inserted last. Addresses play no part in it,
because the objects that are alive have addresses of their own and every insertion removes the dead
ones first.
-/

namespace ObjectShape

set_option autoImplicit false

variable {φ : Type}

/-- The log speaks of objects that were made, and what is alive was found dead by no insertion. -/
structure Lasting (moment : Moment φ) : Prop where
  sound : moment.workspace.heap.Sound moment.workspace.pool
  numbered : ∀ insertion ∈ moment.log,
    insertion.source.serial < moment.workspace.heap.nextSerial
  surviving : ∀ source ∈ moment.workspace.alive, ¬FoundDead source moment.log

namespace Lasting

variable {workspace : Workspace φ} {log : List (Insertion φ)}

theorem ages {later : Workspace φ} (lasting : Lasting { workspace, log })
    (ages : workspace.Ages later) : Lasting { workspace := later, log } := by
  constructor
  case sound => exact ages.sound lasting.sound
  case numbered =>
    exact fun insertion member => Nat.lt_of_lt_of_le (lasting.numbered insertion member) ages.counted
  case surviving =>
    intro source live dead
    obtain ⟨fields, lives⟩ := Workspace.mem_alive_iff.mp live
    rcases ages.lived_or_new lives with old | new
    -- a new object has a number that is not in the log
    · exact lasting.surviving source (Workspace.mem_alive_iff.mpr ⟨fields, old⟩) dead
    · obtain ⟨insertion, member, rfl⟩ := List.mem_map.mp (inserted_of_found_dead dead)
      have := lasting.numbered insertion member
      dsimp only at this
      omega

theorem inserted {insertion : Insertion φ} (lasting : Lasting { workspace, log })
    (live : insertion.source ∈ workspace.alive) (alive : insertion.alive = workspace.alive) :
    Lasting { workspace, log := insertion :: log } := by
  constructor
  case sound => exact lasting.sound
  case numbered =>
    intro other member
    rcases List.mem_cons.mp member with rfl | old
    · obtain ⟨fields, lives⟩ := Workspace.mem_alive_iff.mp live
      exact lasting.sound.numbered lives
    · exact lasting.numbered other old
  case surviving =>
    intro source present dead
    rcases (found_dead_cons ..).mp dead with old | ⟨_, missing⟩
    · exact lasting.surviving source present old
    · exact missing (alive ▸ present)

theorem cleared (lasting : Lasting { workspace, log }) : Lasting { workspace, log := [] } where
  sound := lasting.sound
  numbered _ member := nomatch member
  surviving _ _ dead := nomatch inserted_of_found_dead dead

theorem apart (lasting : Lasting { workspace, log }) {source other : ObjectRef}
    (live : source ∈ workspace.alive) (present : other ∈ workspace.alive)
    (address : other.address = source.address) : other = source := by
  obtain ⟨fields, lives⟩ := Workspace.mem_alive_iff.mp live
  obtain ⟨inside, present⟩ := Workspace.mem_alive_iff.mp present
  exact (lasting.sound.apart present lives address).1

end Lasting

/-- An action that is allowed inserts only for objects that are alive. -/
theorem Action.insertion_alive {workspace : Workspace φ} {action : Action φ}
    (allowed : workspace.Allows action) {insertion : Insertion φ}
    (inserts : action.insertion? workspace = some insertion) :
    insertion.source ∈ workspace.alive ∧ insertion.alive = workspace.alive := by
  cases action with
  | insert compiler source handle =>
      obtain rfl := Option.some.inj inserts
      exact ⟨allowed.2, rfl⟩
  | compile compiler raw =>
      rcases Workspace.perform_compile compiler raw workspace with
        ⟨source, fields, shape, rfl, _, _, made, _⟩ | ⟨none_made, _⟩
      · rw [made] at inserts
        obtain rfl := Option.some.inj inserts
        exact ⟨Workspace.mem_alive_iff.mpr ⟨fields, allowed.2 (.self _)⟩, rfl⟩
      · rw [none_made] at inserts
        cases inserts
  | _ => cases inserts

theorem Action.logged_cases (index : Nat) (workspace : Workspace φ) (log : List (Insertion φ))
    (action : Action φ) :
    action.logged index workspace log = log ∨ action.logged index workspace log = [] ∨
      ∃ insertion, action.memo? = some index ∧ action.insertion? workspace = some insertion ∧
        action.logged index workspace log = insertion :: log := by
  unfold Action.logged
  split
  · rename_i at_index
    split
    · exact .inr (.inl rfl)
    · cases inserts : action.insertion? workspace with
      | none => exact .inl rfl
      | some insertion => exact .inr (.inr ⟨insertion, at_index, rfl, rfl⟩)
  · exact .inl rfl

theorem Action.logged_of_none {index : Nat} {workspace : Workspace φ} {log : List (Insertion φ)}
    {action : Action φ} (inserts : action.insertion? workspace = none)
    (keeps : ∀ compiler, action ≠ .clear compiler) :
    action.logged index workspace log = log := by
  unfold Action.logged
  split
  · split
    · exact absurd rfl (keeps _)
    · rw [inserts]
      rfl
  · rfl

theorem Lasting.logged {index : Nat} {moment : Moment φ} {action : Action φ}
    (lasting : Lasting moment) (allowed : moment.workspace.Allows action) :
    Lasting { moment with log := action.logged index moment.workspace moment.log } := by
  rcases Action.logged_cases index moment.workspace moment.log action with
    same | none_left | ⟨insertion, _, inserts, pushed⟩
  · rw [same]
    exact lasting
  · rw [none_left]
    exact lasting.cleared
  · obtain ⟨live, alive⟩ := Action.insertion_alive allowed inserts
    rw [pushed]
    exact lasting.inserted live alive

theorem Lasting.after {index : Nat} {moment : Moment φ} {action : Action φ}
    (lasting : Lasting moment) (allowed : moment.workspace.Allows action) :
    Lasting (moment.after index action) :=
  (lasting.logged allowed).ages (Workspace.ages_of_perform allowed)

theorem lasting_start : Lasting ({} : Moment φ) where
  sound := Heap.sound_of_empty
  numbered _ member := nomatch member
  surviving _ live := nomatch live

theorem lasting_of_history {index : Nat} {moment : Moment φ} (history : History index moment) :
    Lasting moment := by
  refine history.induct ?_ ?_
  · exact lasting_start
  · intro earlier action allowed lasting
    exact lasting.after allowed

structure Memo.Records (memo : Memo φ) (log : List (Insertion φ)) : Prop where
  filed : memo.Filed
  told : ∀ {source handle}, (source, handle) ∈ memo.held ↔
    mostRecent source log = some handle ∧ ¬FoundDead source log

namespace Memo

theorem records_empty : ({} : Memo φ).Records [] where
  filed := filed_empty
  told := by
    intro source handle
    exact ⟨fun member => (nomatch member), fun recent => (nomatch recent.1)⟩

theorem Records.insert {workspace : Workspace φ} {log : List (Insertion φ)} {memo : Memo φ}
    (records : memo.Records log) (lasting : Lasting { workspace, log }) {insertion : Insertion φ}
    (live : insertion.source ∈ workspace.alive) (alive : insertion.alive = workspace.alive) :
    (memo.insert workspace.alive insertion.source insertion.handle).Records
      (insertion :: log) := by
  refine ⟨records.filed.insert .., ?_⟩
  intro source handle
  rw [records.filed.mem_held_of_insert fun other present => lasting.apart live present,
    most_recent_cons, found_dead_cons, alive]
  by_cases same : source = insertion.source
  · subst same
    have surviving := lasting.surviving _ live
    simp [surviving, live, eq_comm]
  · have different : ¬ insertion.source = source := fun equal => same equal.symm
    -- the entry of another object goes exactly when the new insertion finds that object dead
    rw [if_neg same, if_neg different, records.told]
    constructor
    · rintro ⟨present, recent, surviving⟩
      exact ⟨recent, not_or.mpr ⟨surviving, fun dead => dead.2 present⟩⟩
    · rintro ⟨recent, surviving⟩
      obtain ⟨surviving, present⟩ := not_or.mp surviving
      have inserted := most_recent_is_some_iff.mp ⟨handle, recent⟩
      exact ⟨by_contra fun missing => present ⟨inserted, missing⟩, recent, surviving⟩

end Memo

/-- The memo at the place, if it was made, is what the log tells; and compilers only have memos that
were made. -/
structure Recorded (index : Nat) (moment : Moment φ) : Prop where
  blank : moment.workspace.memos.length ≤ index → moment.log = []
  records : ∀ memo, moment.workspace.memos[index]? = some memo → memo.Records moment.log
  placed : ∀ compiler, moment.workspace.Offers compiler → ∀ place, compiler.memo = some place →
    place < moment.workspace.memos.length

namespace Workspace

theorem remember_of_place {workspace : Workspace φ} {compiler : Compiler} {place : Nat}
    (at_place : compiler.memo = some place) {memo : Memo φ}
    (found : workspace.memos[place]? = some memo) (source : ObjectRef) (handle : Handle φ) :
    workspace.remember compiler source handle =
      { workspace with
        memos := workspace.memos.set place (memo.insert workspace.alive source handle) } := by
  have memo_of : workspace.memoOf compiler = some memo := by simp [memoOf, at_place, found]
  simp [remember, memo_of, setMemo, at_place]

theorem forget_of_place {workspace : Workspace φ} {compiler : Compiler} {place : Nat}
    (at_place : compiler.memo = some place) {memo : Memo φ}
    (found : workspace.memos[place]? = some memo) :
    workspace.forget compiler = { workspace with memos := workspace.memos.set place {} } := by
  have memo_of : workspace.memoOf compiler = some memo := by simp [memoOf, at_place, found]
  simp [forget, memo_of, setMemo, at_place, Memo.clear]

theorem remember_of_none {workspace : Workspace φ} {compiler : Compiler}
    (no_memo : compiler.memo = none) (source : ObjectRef) (handle : Handle φ) :
    workspace.remember compiler source handle = workspace := by
  simp [remember, memoOf, no_memo]

theorem forget_of_none {workspace : Workspace φ} {compiler : Compiler}
    (no_memo : compiler.memo = none) : workspace.forget compiler = workspace := by
  simp [forget, memoOf, no_memo]

theorem offers_of_put {workspace : Workspace φ} {name : String} {added compiler : Compiler}
    {memos : List (Memo φ)}
    (offers : Offers
      { workspace with compilers := Entries.put name added workspace.compilers, memos } compiler) :
    compiler = added ∨ workspace.Offers compiler := by
  obtain ⟨other, found⟩ := offers
  rw [compiler?, Entries.get?_put] at found
  split at found
  · exact .inl (Option.some.inj found).symm
  · exact .inr ⟨other, found⟩

theorem offers_of_new_compiler {workspace : Workspace φ} {name : String}
    {settings : CompilerSettings} {compiler : Compiler}
    (offers : (workspace.newCompiler name settings).Offers compiler) :
    compiler = { settings, memo := if settings.cache then some workspace.memos.length else none } ∨
      workspace.Offers compiler :=
  offers_of_put offers

end Workspace

namespace Recorded

variable {index : Nat} {workspace : Workspace φ} {log : List (Insertion φ)}

theorem of_same {later : Workspace φ} (recorded : Recorded index { workspace, log })
    (memos : later.memos = workspace.memos)
    (offered : ∀ compiler, later.Offers compiler → workspace.Offers compiler) :
    Recorded index { workspace := later, log } where
  blank short := recorded.blank (memos ▸ short)
  records memo found := recorded.records memo (memos ▸ found)
  placed compiler offers place at_place := by
    have := recorded.placed compiler (offered compiler offers) place at_place
    exact memos ▸ this

theorem set {place : Nat} {memo : Memo φ} {after : List (Insertion φ)}
    (recorded : Recorded index { workspace, log })
    (records : place = index → memo.Records after) (bound : place < workspace.memos.length) :
    Recorded index
      { workspace := { workspace with memos := workspace.memos.set place memo }
        log := if place = index then after else log } := by
  constructor
  case blank =>
    intro short
    rw [List.length_set] at short
    rw [if_neg (by omega)]
    exact recorded.blank short
  case records =>
    intro found at_index
    rw [List.getElem?_set] at at_index
    by_cases same : place = index
    · rw [if_pos same, if_pos bound] at at_index
      rw [if_pos same, ← Option.some.inj at_index]
      exact records same
    · rw [if_neg same] at at_index ⊢
      exact recorded.records found at_index
  case placed =>
    intro compiler offers other at_place
    rw [List.length_set]
    exact recorded.placed compiler offers other at_place

theorem remembered {compiler : Compiler} (recorded : Recorded index { workspace, log })
    (lasting : Lasting { workspace, log }) (offered : workspace.Offers compiler)
    (insertion : Insertion φ) (live : insertion.source ∈ workspace.alive)
    (alive : insertion.alive = workspace.alive) :
    Recorded index
      { workspace := workspace.remember compiler insertion.source insertion.handle
        log := if compiler.memo = some index then insertion :: log else log } := by
  cases at_place : compiler.memo with
  | none =>
      rw [Workspace.remember_of_none at_place]
      exact recorded
  | some place =>
      have bound := recorded.placed compiler offered place at_place
      have found := List.getElem?_eq_getElem bound
      rw [Workspace.remember_of_place at_place found]
      simp only [Option.some.injEq]
      refine recorded.set ?_ bound
      rintro rfl
      exact (recorded.records _ found).insert lasting live alive

theorem forgot {compiler : Compiler} (recorded : Recorded index { workspace, log })
    (offered : workspace.Offers compiler) :
    Recorded index
      { workspace := workspace.forget compiler
        log := if compiler.memo = some index then [] else log } := by
  cases at_place : compiler.memo with
  | none =>
      rw [Workspace.forget_of_none at_place]
      exact recorded
  | some place =>
      have bound := recorded.placed compiler offered place at_place
      rw [Workspace.forget_of_place at_place (List.getElem?_eq_getElem bound)]
      simp only [Option.some.injEq]
      exact recorded.set (fun _ => Memo.records_empty) bound

theorem new_compiler (recorded : Recorded index { workspace, log }) (name : String)
    (settings : CompilerSettings) :
    Recorded index { workspace := workspace.newCompiler name settings, log } := by
  cases cache : settings.cache with
  | false =>
      have same : (workspace.newCompiler name settings).memos = workspace.memos := by
        simp [Workspace.newCompiler, cache]
      refine ⟨fun short => recorded.blank (same ▸ short),
        fun memo found => recorded.records memo (same ▸ found), ?_⟩
      intro compiler offers place at_place
      rw [same]
      rcases Workspace.offers_of_new_compiler offers with rfl | old
      · simp [cache] at at_place
      · exact recorded.placed compiler old place at_place
  | true =>
      have grown : (workspace.newCompiler name settings).memos = workspace.memos ++ [({} : Memo φ)] := by
        simp [Workspace.newCompiler, cache]
      refine ⟨?_, ?_, ?_⟩
      · intro short
        rw [grown, List.length_append] at short
        exact recorded.blank (Nat.le_of_succ_le short)
      · intro memo found
        rw [grown] at found
        rcases Nat.lt_or_ge index workspace.memos.length with old | new
        · rw [List.getElem?_append_left old] at found
          exact recorded.records memo found
        · rw [List.getElem?_append_right new] at found
          have made := List.mem_of_getElem? found
          rw [List.mem_singleton.mp made, recorded.blank new]
          exact Memo.records_empty
      · intro compiler offers place at_place
        rw [grown, List.length_append]
        rcases Workspace.offers_of_new_compiler offers with rfl | old
        · simp only [cache, if_true, Option.some.injEq] at at_place
          rw [← at_place]
          exact Nat.lt_succ_self _
        · exact Nat.lt_succ_of_lt (recorded.placed compiler old place at_place)

theorem clone_compiler {compiler : Compiler} (recorded : Recorded index { workspace, log })
    (offered : workspace.Offers compiler) (name : String) :
    Recorded index { workspace := workspace.cloneCompiler name compiler, log } := by
  refine recorded.of_same rfl ?_
  intro other offers
  rcases Workspace.offers_of_put offers with rfl | old
  · exact offered
  · exact old

theorem after {moment : Moment φ} {action : Action φ} (recorded : Recorded index moment)
    (lasting : Lasting moment) (allowed : moment.workspace.Allows action) :
    Recorded index (moment.after index action) := by
  cases action with
  | bind name value heap => exact recorded.of_same rfl fun _ offers => offers
  | drop name => exact recorded.of_same rfl fun _ offers => offers
  | newCompiler name settings => exact recorded.new_compiler name settings
  | cloneCompiler name compiler => exact recorded.clone_compiler allowed name
  | compile compiler raw =>
      have counted : Recorded index { moment with workspace := moment.workspace.counted } :=
        recorded.of_same rfl fun _ offers => offers
      rcases Workspace.perform_compile compiler raw moment.workspace with
        ⟨source, fields, shape, rfl, _, _, inserts, performed⟩ | ⟨none_made, performed⟩
      · have live := (Action.insertion_alive allowed inserts).1
        have made := counted.remembered (lasting.ages (Workspace.ages_of_counted _)) allowed.1 _
          live rfl
        simp only [Moment.after, performed, Action.logged, Action.memo?, inserts]
        exact made
      · rw [Moment.after, Action.logged_of_none none_made (by simp)]
        rcases performed with same | next
        · rw [same]
          exact recorded
        · rw [next]
          exact counted
  | insert compiler source handle =>
      let insertion : Insertion φ :=
        { source, handle, alive := moment.workspace.alive, compiled := false }
      exact recorded.remembered lasting allowed.1 insertion allowed.2 rfl
  | get compiler source =>
      rw [Moment.after, Action.logged_of_none rfl (by simp)]
      exact recorded
  | clear compiler => exact recorded.forgot allowed

end Recorded

theorem recorded_start (index : Nat) : Recorded index ({} : Moment φ) where
  blank _ := rfl
  records _ found := nomatch found
  placed _ offers := nomatch offers.choose_spec

theorem recorded_of_history {index : Nat} {moment : Moment φ} (history : History index moment) :
    Recorded index moment := by
  have both : Lasting moment ∧ Recorded index moment := by
    refine history.induct ?_ ?_
    · exact ⟨lasting_start, recorded_start index⟩
    · rintro earlier action allowed ⟨lasting, recorded⟩
      exact ⟨lasting.after allowed, recorded.after lasting allowed⟩
  exact both.2

theorem recorded_memo {index : Nat} {moment : Moment φ} (history : History index moment)
    {compiler : Compiler} (offered : moment.workspace.Offers compiler)
    (at_place : compiler.memo = some index) :
    ∃ memo, moment.workspace.memoOf compiler = some memo ∧ memo.Records moment.log := by
  have recorded := recorded_of_history history
  have found := List.getElem?_eq_getElem (recorded.placed compiler offered index at_place)
  exact ⟨_, by simp [Workspace.memoOf, at_place], recorded.records _ found⟩

theorem remembered_iff_most_recent {index : Nat} {moment : Moment φ}
    (history : History index moment) {compiler : Compiler}
    (offered : moment.workspace.Offers compiler) (at_place : compiler.memo = some index)
    {source : ObjectRef} (live : source ∈ moment.workspace.alive) {handle : Handle φ} :
    moment.workspace.remembered? compiler source = some handle ↔
      mostRecent source moment.log = some handle := by
  obtain ⟨memo, memo_of, records⟩ := recorded_memo history offered at_place
  have surviving := (lasting_of_history history).surviving source live
  rw [Workspace.remembered?, memo_of, Option.bind_some, records.filed.get?_eq_some_iff, records.told]
  exact and_iff_left surviving

/-- What a compilation gives for an object is what was inserted last for it. -/
theorem most_recent_of_compile {index : Nat} {moment : Moment φ} (history : History index moment)
    {compiler : Compiler} (offered : moment.workspace.Offers compiler)
    (at_place : compiler.memo = some index) {source : ObjectRef}
    {fields : List (String × Value φ)} (live : source ∈ moment.workspace.alive)
    {handle : Handle φ} {after : Workspace φ}
    (compiled : moment.workspace.compile compiler (.object source fields) = .ok (handle, after)) :
    mostRecent source (moment.after index (.compile compiler (.object source fields))).log =
      some handle := by
  have known : moment.workspace.remembered? compiler source = some handle →
      mostRecent source moment.log = some handle :=
    (remembered_iff_most_recent history offered at_place live).mp
  simp only [Moment.after, Action.logged, Action.memo?, at_place, if_true, Action.insertion?]
  rw [compiled]
  cases found : moment.workspace.remembered? compiler source with
  | none => exact (most_recent_cons ..).trans (if_pos rfl)
  | some remembered =>
      have outcome := Workspace.compile_eq compiler (.object source fields) moment.workspace
      simp only [found, compiled, Except.ok.injEq, Prod.mk.injEq] at outcome
      obtain ⟨rfl, _⟩ := outcome
      exact known found

namespace Workspace

/-- Actions that are to leave memos as they are: a look-up, and the compilation of a schematic, of an
object that is remembered, or of a value that fails to compile. -/
def Spares (workspace : Workspace φ) : Action φ → Prop
  | .get _ _ => True
  | .compile compiler raw =>
      (∃ handle, raw = .schematic handle) ∨
        (∃ source fields handle, raw = .object source fields ∧
          workspace.remembered? compiler source = some handle) ∨
        ∃ fault, workspace.compile compiler raw = .error fault
  | _ => False

theorem spared {workspace : Workspace φ} {action : Action φ} (spares : workspace.Spares action) :
    action.insertion? workspace = none ∧ (workspace.perform action).memos = workspace.memos := by
  cases action with
  | get compiler source => exact ⟨rfl, rfl⟩
  | compile compiler raw =>
      rcases perform_compile compiler raw workspace with
        ⟨source, fields, shape, rfl, unknown, compiled, _⟩ | ⟨none_made, same | next⟩
      · have outcome := compile_eq compiler (.object source fields) workspace
        rcases spares with ⟨handle, other⟩ | ⟨_, _, handle, same, known⟩ | ⟨fault, failed⟩
        · cases other
        · cases same
          rw [unknown] at known
          cases known
        · simp only [unknown, compiled, Except.map, failed] at outcome
          cases outcome
      · exact ⟨none_made, by rw [same]⟩
      · exact ⟨none_made, by rw [next]; rfl⟩
  | _ => exact spares.elim

end Workspace

/-- The memo of the compiler holds what the log of the place tells, and is left alone by what inserts
nothing. -/
structure Moment.Remembers (index : Nat) (moment : Moment φ) (compiler : Compiler) : Prop where
  /-- A look-up for an object that is alive finds what was inserted last for it. -/
  answers : ∀ source ∈ moment.workspace.alive, ∀ handle,
    moment.workspace.remembered? compiler source = some handle ↔
      mostRecent source moment.log = some handle
  /-- Of the objects inserted since the last clearing, the entries lack those that a later insertion
  found dead, and each holds what was inserted last. -/
  entries : ∃ memo, moment.workspace.memoOf compiler = some memo ∧ memo.sources.Nodup ∧
    (∀ source, source ∈ memo.sources ↔
      source ∈ moment.log.map Insertion.source ∧ ¬FoundDead source moment.log) ∧
    ∀ source handle, (source, handle) ∈ memo.held → mostRecent source moment.log = some handle
  spared : ∀ action, moment.workspace.Spares action →
    (moment.after index action).workspace.memos = moment.workspace.memos ∧
      (moment.after index action).log = moment.log
  /-- No step of a compilation that fails has touched the memo. -/
  failed : ∀ raw fault, moment.workspace.compile compiler raw = .error fault →
    ∀ memo, moment.workspace.memoOf compiler = some memo →
      (Memo.compileInSteps compiler.settings.emptySchema moment.workspace.alive
        moment.workspace.heap.nextSerial raw).run.run memo = (.error fault, memo)
  /-- What an object compiles to, it compiles to again as long as it lives and neither a clearing nor
  an insertion for the object itself comes between, whatever else does. -/
  repeats : ∀ source fields, MadeOf moment.workspace.pool (.object source fields) →
    ∀ handle after, moment.workspace.compile compiler (.object source fields) = .ok (handle, after) →
      ∀ later, Leads index (moment.after index (.compile compiler (.object source fields))) later →
        (∃ newer, source ∉ newer.map Insertion.source ∧ later.log =
          newer ++ (moment.after index (.compile compiler (.object source fields))).log) →
        MadeOf later.workspace.pool (.object source fields) →
        ∀ other, later.workspace.Offers other → other.memo = some index →
          ∃ after, later.workspace.compile other (.object source fields) = .ok (handle, after)

theorem remembers_of_history {index : Nat} {moment : Moment φ} (history : History index moment)
    {compiler : Compiler} (offered : moment.workspace.Offers compiler)
    (at_place : compiler.memo = some index) : moment.Remembers index compiler := by
  obtain ⟨memo, memo_of, records⟩ := recorded_memo history offered at_place
  constructor
  case answers =>
    exact fun source live handle => remembered_iff_most_recent history offered at_place live
  case entries =>
    refine ⟨memo, memo_of, records.filed.sources_nodup, ?_, ?_⟩
    · intro source
      rw [Memo.mem_sources_iff, ← most_recent_is_some_iff]
      simp only [records.told, exists_and_right]
    · exact fun source handle member => (records.told.mp member).1
  case spared =>
    intro action spares
    obtain ⟨none_made, memos⟩ := Workspace.spared spares
    refine ⟨memos, Action.logged_of_none none_made ?_⟩
    rintro _ rfl
    exact spares
  case failed =>
    intro raw fault failed other other_of
    rw [Memo.compile_in_steps, ← other_of, Workspace.compile_eq_error failed]
  case repeats =>
    intro source fields made handle after compiled later leads between remade other offers at_index
    have live := Workspace.mem_alive_iff.mpr ⟨fields, made (.self _)⟩
    have lives := Workspace.mem_alive_iff.mpr ⟨fields, remade (.self _)⟩
    have recent := most_recent_of_compile history offered at_place live compiled
    obtain ⟨newer, others, log⟩ := between
    rw [← most_recent_append others, ← log] at recent
    have reached : History index later :=
      (history.tail (.action (.compile compiler (.object source fields)) ⟨offered, made⟩)).trans leads
    have known := (remembered_iff_most_recent reached offers at_index lives).mpr recent
    refine ⟨later.workspace.counted, ?_⟩
    rw [Workspace.compile_eq]
    simp only [known]

/-- Two objects that live one after the other at one address. -/
def predecessor : Value Empty :=
  .object ⟨0, 0⟩ [("a", .string "string")]

def successor : Value Empty :=
  .object ⟨0, 2⟩ [("b", .string "bigint")]

def sharing : Compiler :=
  { settings := {}, memo := some 0 }

/-- The first object is compiled and let go, and the second made in its place. -/
def succession : List (Action Empty) :=
  [.newCompiler "c" {}, .cloneCompiler "d" sharing,
    .bind "r" predecessor { top := 1, nextSerial := 1 }, .compile sharing predecessor, .drop "r",
    .bind "s" successor { top := 1, nextSerial := 3 }]

theorem succession_permitted : ({} : Moment Empty).Permits 0 succession := by
  refine ⟨trivial, ⟨"c", by cbv⟩, ?_, ⟨⟨"d", by cbv⟩, ?_⟩, trivial, ?_, trivial⟩
  · exact ⟨_, making_of_texts (by simp) rfl, made_of_member List.mem_cons_self⟩
  · exact made_of_member List.mem_cons_self
  · refine ⟨_, making_of_texts (by simp) ?_, made_of_member List.mem_cons_self⟩
    cbv

theorem succession_remembers :
    History 0 (({} : Moment Empty).replay 0 succession) ∧
      (({} : Moment Empty).replay 0 succession).Remembers 0 sharing := by
  have history := Moment.leads_of_permits succession_permitted
  exact ⟨history, remembers_of_history history ⟨"d", by cbv⟩ rfl⟩

/-- The entry of the first object is there until the second is compiled. -/
example :
    (({} : Moment Empty).replay 0 succession).workspace.memos.map Memo.sources = [[⟨0, 0⟩]] ∧
      (({} : Moment Empty).replay 0
        (succession ++ [.compile sharing successor])).workspace.memos.map Memo.sources =
          [[⟨0, 2⟩]] := by
  cbv

end ObjectShape
