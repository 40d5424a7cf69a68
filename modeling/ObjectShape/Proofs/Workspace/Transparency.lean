import ObjectShape.Proofs.Workspace.Remembering

/-!
# Compiling with a memo and without

What compilations put into a memo is the shape their object compiles to, under the one policy that all
compilers with that memo have; and an object that lives has the fields it always had. So a compiler that
shares a memo answers as one without a memo does, wherever its objects live.
-/

namespace ObjectShape

set_option autoImplicit false

variable {φ : Type}

/-- The compilers that share the memo have one policy, and objects that live still compile to what
was inserted as their compilation. -/
structure Faithful (policy : EmptyPolicy) (index : Nat) (moment : Moment φ) : Prop where
  agreed : ∀ compiler, moment.workspace.Offers compiler → compiler.memo = some index →
    compiler.settings.emptySchema = policy
  shapes : ∀ insertion ∈ moment.log, insertion.compiled = true →
    ∀ fields, Lives moment.workspace.pool insertion.source fields →
      compileObject policy (.object insertion.source fields) = .ok insertion.handle.shape

theorem Workspace.offers_of_perform {workspace : Workspace φ} {action : Action φ}
    (allowed : workspace.Allows action) (known : ∀ name settings, action ≠ .newCompiler name settings)
    {compiler : Compiler} (offers : (workspace.perform action).Offers compiler) :
    workspace.Offers compiler := by
  cases action with
  | newCompiler name settings => exact absurd rfl (known name settings)
  | cloneCompiler name original =>
      rcases offers_of_put offers with rfl | old
      · exact allowed
      · exact old
  | compile user raw =>
      rcases perform_compile user raw workspace with
        ⟨source, fields, shape, _, _, _, _, after⟩ | ⟨_, after | after⟩ <;> rw [after] at offers
      · rw [remember_eq] at offers
        exact offers
      · exact offers
      · exact offers
  | insert user source handle =>
      rw [perform, remember_eq] at offers
      exact offers
  | clear user =>
      rw [perform, forget_eq] at offers
      exact offers
  | bind _ _ _ | drop _ | get _ _ => exact offers

/-- What is inserted as a compilation is one. -/
theorem Action.insertion_compiles {workspace : Workspace φ} {action : Action φ}
    (allowed : workspace.Allows action) {insertion : Insertion φ}
    (inserts : action.insertion? workspace = some insertion) (compiled : insertion.compiled = true) :
    ∃ compiler, workspace.Offers compiler ∧ action.memo? = compiler.memo ∧
      ∃ fields, Lives workspace.pool insertion.source fields ∧
        compileObject compiler.settings.emptySchema (.object insertion.source fields) =
          .ok insertion.handle.shape := by
  cases action with
  | insert compiler source handle =>
      obtain rfl := Option.some.inj inserts
      cases compiled
  | compile compiler raw =>
      rcases Workspace.perform_compile compiler raw workspace with
        ⟨source, fields, shape, rfl, _, built, made, _⟩ | ⟨none_made, _⟩
      · rw [made] at inserts
        obtain rfl := Option.some.inj inserts
        exact ⟨compiler, allowed.1, rfl, fields, allowed.2 (.self _), built⟩
      · rw [none_made] at inserts
        cases inserts
  | _ => cases inserts

namespace Faithful

variable {policy : EmptyPolicy} {index : Nat} {workspace : Workspace φ} {log : List (Insertion φ)}

theorem ages {later : Workspace φ} (faithful : Faithful policy index { workspace, log })
    (lasting : Lasting { workspace, log }) (ages : workspace.Ages later)
    (offered : ∀ compiler, later.Offers compiler → compiler.memo = some index →
      compiler.settings.emptySchema = policy) :
    Faithful policy index { workspace := later, log } := by
  refine ⟨offered, ?_⟩
  intro insertion member compiled fields lives
  rcases ages.lived_or_new lives with old | new
  -- no insertion is about a new object, even if it took the address of one that was inserted
  · exact faithful.shapes insertion member compiled fields old
  · have := lasting.numbered insertion member
    dsimp only at this
    omega

theorem inserted {insertion : Insertion φ} (faithful : Faithful policy index { workspace, log })
    (shape : insertion.compiled = true → ∀ fields, Lives workspace.pool insertion.source fields →
      compileObject policy (.object insertion.source fields) = .ok insertion.handle.shape) :
    Faithful policy index { workspace, log := insertion :: log } := by
  refine ⟨faithful.agreed, ?_⟩
  intro other member
  rcases List.mem_cons.mp member with rfl | old
  · exact shape
  · exact faithful.shapes other old

theorem logged {moment : Moment φ} {action : Action φ}
    (faithful : Faithful policy index moment) (lasting : Lasting moment)
    (allowed : moment.workspace.Allows action) :
    Faithful policy index
      { moment with log := action.logged index moment.workspace moment.log } := by
  rcases Action.logged_cases index moment.workspace moment.log action with
    same | none_left | ⟨insertion, at_index, inserts, pushed⟩
  · rw [same]
    exact faithful
  · rw [none_left]
    exact ⟨faithful.agreed, fun _ member => nomatch member⟩
  · rw [pushed]
    refine faithful.inserted ?_
    intro compiled fields lives
    obtain ⟨compiler, offered, place, inside, known, built⟩ :=
      Action.insertion_compiles allowed inserts compiled
    -- the object that lives is the one that was compiled, so its fields are the same
    obtain ⟨_, rfl⟩ := lasting.sound.apart lives known rfl
    rw [← faithful.agreed compiler offered (place ▸ at_index)]
    exact built

/-- The first compiler with the memo brings its policy. -/
theorem new_compiler {moment : Moment φ} (faithful : Faithful policy index moment)
    (recorded : Recorded index moment) (name : String) (settings : CompilerSettings) :
    ∃ policy, Faithful policy index
      { moment with workspace := moment.workspace.newCompiler name settings } := by
  by_cases first : settings.cache = true ∧ moment.workspace.memos.length = index
  · obtain ⟨cache, rfl⟩ := first
    refine ⟨settings.emptySchema, ?_, ?_⟩
    · intro compiler offers at_index
      rcases Workspace.offers_of_new_compiler offers with rfl | old
      · rfl
      · exact absurd (recorded.placed compiler old _ at_index) (Nat.lt_irrefl _)
    · intro insertion member
      rw [recorded.blank (Nat.le_refl _)] at member
      cases member
  · refine ⟨policy, ?_, faithful.shapes⟩
    intro compiler offers at_index
    rcases Workspace.offers_of_new_compiler offers with rfl | old
    · by_cases cache : settings.cache = true
      · simp only [cache, if_true, Option.some.injEq] at at_index
        exact absurd ⟨cache, at_index⟩ first
      · simp [cache] at at_index
    · exact faithful.agreed compiler old at_index

theorem after {moment : Moment φ} {action : Action φ} (faithful : Faithful policy index moment)
    (lasting : Lasting moment) (recorded : Recorded index moment)
    (allowed : moment.workspace.Allows action) :
    ∃ policy, Faithful policy index (moment.after index action) := by
  by_cases created : ∃ name settings, action = .newCompiler name settings
  · obtain ⟨name, settings, rfl⟩ := created
    exact faithful.new_compiler recorded name settings
  · refine ⟨policy, (faithful.logged lasting allowed).ages (lasting.logged allowed)
      (Workspace.ages_of_perform allowed) ?_⟩
    intro compiler offers
    have known := Workspace.offers_of_perform allowed
      (fun name settings same => created ⟨name, settings, same⟩) offers
    exact faithful.agreed compiler known

end Faithful

theorem faithful_of_history {index : Nat} {moment : Moment φ} (history : History index moment) :
    ∃ policy, Faithful policy index moment := by
  have both : History index moment ∧ ∃ policy, Faithful policy index moment := by
    refine history.induct ?_ ?_
    · refine ⟨.refl, .reject, ?_, fun _ member => (nomatch member)⟩
      rintro compiler ⟨name, found⟩
      cases found
    · rintro earlier action allowed ⟨before, policy, faithful⟩
      exact ⟨before.tail (.action action allowed),
        faithful.after (lasting_of_history before) (recorded_of_history before) allowed⟩
  exact both.2

/-- The shape of an object that lives is found in the memo only if the object compiles to it. -/
theorem compiles_of_remembered {index : Nat} {moment : Moment φ} (history : History index moment)
    (only_compiled : ∀ insertion ∈ moment.log, insertion.compiled = true) {compiler : Compiler}
    (offered : moment.workspace.Offers compiler) (at_place : compiler.memo = some index)
    {source : ObjectRef} {fields : List (String × Value φ)}
    (lives : Lives moment.workspace.pool source fields) {handle : Handle φ}
    (known : moment.workspace.remembered? compiler source = some handle) :
    compileObject compiler.settings.emptySchema (.object source fields) = .ok handle.shape := by
  obtain ⟨policy, faithful⟩ := faithful_of_history history
  have live := Workspace.mem_alive_iff.mpr ⟨fields, lives⟩
  have recent := (remembered_iff_most_recent history offered at_place live).mp known
  obtain ⟨insertion, member, rfl, rfl⟩ := exists_of_most_recent recent
  rw [faithful.agreed compiler offered at_place]
  exact faithful.shapes insertion member (only_compiled insertion member) fields lives

theorem compile_as_without_memo {index : Nat} {moment : Moment φ} (history : History index moment)
    (only_compiled : ∀ insertion ∈ moment.log, insertion.compiled = true) {compiler : Compiler}
    (offered : moment.workspace.Offers compiler) (at_place : compiler.memo = some index)
    {memoless : Compiler} (no_memo : memoless.memo = none)
    (same_policy : memoless.settings.emptySchema = compiler.settings.emptySchema) {raw : Value φ}
    (made : MadeOf moment.workspace.pool raw) :
    (moment.workspace.compile compiler raw).map (fun outcome => outcome.1.shape) =
      (moment.workspace.compile memoless raw).map (fun outcome => outcome.1.shape) := by
  rw [Workspace.compile_eq, Workspace.compile_eq]
  cases raw with
  | object source fields =>
      have unknown : moment.workspace.remembered? memoless source = none := by
        simp [Workspace.remembered?, Workspace.memoOf, no_memo]
      simp only [unknown, same_policy]
      cases known : moment.workspace.remembered? compiler source with
      | some handle =>
          have compiled := compiles_of_remembered history only_compiled offered at_place
            (made (.self _)) known
          rw [compiled]
          rfl
      | none =>
          cases compileObject compiler.settings.emptySchema (.object source fields) <;> rfl
  | _ => rfl

def solitary : Compiler :=
  { settings := { cache := false }, memo := none }

/-- The memo still has the entry of the first object, under the address that the second one has. -/
theorem successor_compiles_as_without_memo :
    History 0 (({} : Moment Empty).replay 0 succession) ∧
      ((({} : Moment Empty).replay 0 succession).workspace.compile sharing successor).map
          (fun outcome => outcome.1.shape) =
        ((({} : Moment Empty).replay 0 succession).workspace.compile solitary successor).map
          (fun outcome => outcome.1.shape) := by
  have history := Moment.leads_of_permits succession_permitted
  have only_compiled : ((({} : Moment Empty).replay 0 succession).log.all Insertion.compiled) =
      true := by cbv
  have offered : (({} : Moment Empty).replay 0 succession).workspace.Offers sharing :=
    ⟨"d", by cbv⟩
  have no_memo : solitary.memo = none := rfl
  have pool : (({} : Moment Empty).replay 0 succession).workspace.pool = [successor] := by cbv
  refine ⟨history, compile_as_without_memo history (List.all_eq_true.mp only_compiled) offered rfl
    no_memo rfl ?_⟩
  rw [pool]
  exact made_of_member List.mem_cons_self

end ObjectShape
