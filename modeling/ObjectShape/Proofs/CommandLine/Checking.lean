import ObjectShape.CommandLine.Run
import ObjectShape.Proofs.Documents
import ObjectShape.Proofs.Files.Disk

/-!
# Success of a check

On files that show a snapshot, the whole check is a function of the snapshot: the schema that is
found, the documents that are gathered, and one verdict for each of them. So it succeeds exactly if
the schema compiles, there is a document, and all documents load and match, and no document decides
what is said about another.
-/

namespace ObjectShape.CommandLine

set_option autoImplicit false

section Judging

variable {φ : Type} [Host φ]

def Matches (snapshot : Snapshot) (shape : Shape φ) (document : String) : Prop :=
  ∃ value, snapshot.Loads document value ∧ shape.accepts value = true

structure Judges (snapshot : Snapshot) (shape : Shape φ) (document : String) (verdict : Verdict) :
    Prop where
  accepted : verdict = .accepted ↔ Matches snapshot shape document
  unread : (∃ fault, verdict = .unread fault) ↔ ¬ ∃ value : Value φ, snapshot.Loads document value

variable {snapshot : Snapshot} {shape : Shape φ}

theorem verdict_judges (document : String) :
    Judges snapshot shape document (.of shape (snapshot.loaded document)) := by
  cases loading : (snapshot.loaded document : Except DocumentFault (Value φ)) with
  | error fault =>
      constructor <;> simp [Matches, ← Snapshot.loaded_eq_ok_iff, loading, Verdict.of]
  | ok value =>
      constructor <;> cases accepts : shape.accepts value <;>
        simp [Matches, ← Snapshot.loaded_eq_ok_iff, loading, Verdict.of, accepts]

instance (document : String) : Decidable (Matches snapshot shape document) :=
  decidable_of_iff _ (verdict_judges document).accepted

/-- Every document has its own verdict, in the order of the documents, and the last line counts
those that do not match. -/
structure Covers (snapshot : Snapshot) (shape : Shape φ) (documents : List String)
    (report : CheckReport) : Prop where
  inTurn : report.verdicts.map Prod.fst = documents
  judged : ∀ entry ∈ report.verdicts, Judges snapshot shape entry.1 entry.2
  counted : report.failures = documents.countP fun document => ¬ Matches snapshot shape document
  said : report.lines.getLast? = some
    (if report.failures = 0 then "✅ All documents match"
      else s!"❌ {report.failures} of {documents.length} document(s) do not match")

def reportOn (snapshot : Snapshot) (schema : String) (shape : Shape φ) (documents : List String) :
    CheckReport :=
  { schema, verdicts := documents.map fun path => (path, .of shape (snapshot.loaded path)) }

theorem failures_of_report (schema : String) (documents : List String) :
    (reportOn snapshot schema shape documents).failures =
      documents.countP fun document => ¬ Matches snapshot shape document := by
  rw [CheckReport.failures, reportOn, List.countP_map]
  apply List.countP_congr
  intro document _
  rw [Function.comp_apply, bne_iff_ne, decide_eq_true_iff, ne_eq,
    (verdict_judges document).accepted]

theorem report_covers (schema : String) (documents : List String) :
    Covers snapshot shape documents (reportOn snapshot schema shape documents) where
  inTurn := by simp [reportOn, Function.comp_def]
  judged := by
    intro entry member
    obtain ⟨document, -, rfl⟩ := List.mem_map.mp member
    exact verdict_judges document
  counted := failures_of_report schema documents
  said := by
    have length : (reportOn snapshot schema shape documents).verdicts.length = documents.length :=
      List.length_map _
    rw [CheckReport.lines, List.getLast?_append_of_ne_nil _ (List.cons_ne_nil _ _), length]
    simp [CheckReport.succeeded]

theorem report_succeeded_iff (schema : String) (documents : List String) :
    (reportOn snapshot schema shape documents).succeeded = true ↔
      ∀ document ∈ documents, Matches snapshot shape document := by
  rw [CheckReport.succeeded, beq_iff_eq, failures_of_report, List.countP_eq_zero]
  simp

end Judging

section Checking

variable {σ : Type} {files : FileSystem (StateM σ)} {state : σ} {snapshot : Snapshot}

def schemaIn (snapshot : Snapshot) (settings : CompilerSettings) (options : Options) :
    Except CommandFault (String × Shape Empty) :=
  match options.schema with
  | none => .error .noSchema
  | some path =>
      match snapshot.compiled settings.emptySchema path with
      | .ok handle => .ok (path, handle.shape)
      | .error fault => .error (.document fault)

theorem schema_in_eq_ok_iff {settings : CompilerSettings} {options : Options} {path : String}
    {shape : Shape Empty} :
    schemaIn snapshot settings options = .ok (path, shape) ↔
      options.schema = some path ∧ snapshot.Compiles settings.emptySchema path shape := by
  cases named : options.schema with
  | none => simp [schemaIn, named]
  | some other =>
      rw [Option.some.injEq]
      constructor
      · intro found
        cases made : (snapshot.compiled settings.emptySchema other : Except _ (Handle Empty)) with
        | error fault => simp only [schemaIn, named, made, reduceCtorEq] at found
        | ok handle =>
            simp only [schemaIn, named, made, Except.ok.injEq, Prod.mk.injEq] at found
            obtain ⟨rfl, rfl⟩ := found
            exact ⟨rfl, Snapshot.compiles_iff.mpr ⟨handle, made, rfl⟩⟩
      · rintro ⟨rfl, compiles⟩
        obtain ⟨handle, made, rfl⟩ := Snapshot.compiles_iff.mp compiles
        simp only [schemaIn, named, made]

theorem schema_answers (shows : Shows files state snapshot) (settings : CompilerSettings)
    (options : Options) :
    Answers (schemaOf files settings options).run state (schemaIn snapshot settings options) := by
  cases named : options.schema with
  | none =>
      simp only [schemaOf, schemaIn, named]
      exact answers_pure _
  | some path =>
      simp only [schemaOf, schemaIn, named]
      refine answers_ok_bind
        (answers_lift (Document.load_schema_answers shows settings.emptySchema path)) ?_
      cases (snapshot.compiled settings.emptySchema path : Except _ (Handle Empty)) <;>
        exact answers_pure _

def checkIn (snapshot : Snapshot) (settings : CompilerSettings) (options : Options)
    (documents : List String) : Except CommandFault CheckReport :=
  (schemaIn snapshot settings options).bind fun found =>
    if documents.isEmpty then .error .noDocuments
    else .ok (reportOn snapshot found.1 found.2 documents)

theorem check_in_eq_ok_iff {settings : CompilerSettings} {options : Options}
    {documents : List String} {report : CheckReport} :
    checkIn snapshot settings options documents = .ok report ↔
      documents ≠ [] ∧ ∃ (schema : String) (shape : Shape Empty), options.schema = some schema ∧
        snapshot.Compiles settings.emptySchema schema shape ∧
          report = reportOn snapshot schema shape documents := by
  constructor
  · intro checked
    obtain ⟨⟨schema, shape⟩, found, reported⟩ := bind_eq_ok_iff.mp checked
    obtain ⟨named, compiles⟩ := schema_in_eq_ok_iff.mp found
    split at reported
    · cases reported
    · rename_i some
      exact ⟨by simpa using some, schema, shape, named, compiles, (Except.ok.inj reported).symm⟩
  · rintro ⟨some, schema, shape, named, compiles, rfl⟩
    rw [checkIn, schema_in_eq_ok_iff.mpr ⟨named, compiles⟩]
    show (if documents.isEmpty then _ else _) = _
    rw [if_neg (by simpa using some)]

theorem check_answers (shows : Shows files state snapshot) (settings : CompilerSettings)
    (options : Options) {paths documents : List String}
    (collected : Answers (Document.collect files paths) state documents) :
    Answers (check files settings options paths).run state
      (checkIn snapshot settings options documents) := by
  have asked := schema_answers shows settings options
  rw [check]
  cases found : schemaIn snapshot settings options with
  | error fault =>
      rw [found] at asked
      rw [checkIn, found]
      exact answers_error_bind asked
  | ok schema =>
      rw [found] at asked
      rw [checkIn, found]
      refine answers_ok_bind asked (answers_ok_bind (answers_lift collected) ?_)
      by_cases none : documents.isEmpty
      · show Answers _ state (if documents.isEmpty then _ else _)
        rw [if_pos none, if_pos none]
        exact answers_error_bind (answers_pure _)
      · show Answers _ state (if documents.isEmpty then _ else _)
        rw [if_neg none, if_neg none]
        refine answers_ok_bind (answers_map_m_ok fun path _ => ?_) (answers_pure _)
        exact answers_ok_bind (answers_lift (Document.load_answers shows path)) (answers_pure _)

theorem carry_out_answers (settings : Settings) (options : Options) {paths : List String}
    {result : Except CommandFault CheckReport}
    (checked : Answers (check files settings.compiler options paths).run state result) :
    Answers (carryOut files settings ⟨options, .check paths⟩).run state
      (result.map fun report => .done report.succeeded report.lines) := by
  cases result with
  | error fault => exact answers_error_bind checked
  | ok report => exact answers_ok_bind checked (answers_pure _)

/-- The command is carried out with success, and leaves the files as they are. -/
def Succeeds (files : FileSystem (StateM σ)) (state : σ) (settings : Settings)
    (arguments : Arguments) : Prop :=
  ∃ outcome, Answers (carryOut files settings arguments).run state (.ok outcome) ∧
    outcome.exitCode = 0

theorem succeeds_iff {settings : Settings} {options : Options} {paths : List String}
    {result : Except CommandFault CheckReport}
    (checked : Answers (check files settings.compiler options paths).run state result) :
    Succeeds files state settings ⟨options, .check paths⟩ ↔
      ∃ report, result = .ok report ∧ report.succeeded = true := by
  have carried := carry_out_answers settings options checked
  constructor
  · rintro ⟨outcome, answered, success⟩
    have same := carried.unique answered
    cases result with
    | error fault => cases same
    | ok report =>
        obtain rfl := Except.ok.inj same
        refine ⟨report, rfl, ?_⟩
        by_contra failed
        simp [Outcome.done, failed] at success
  · rintro ⟨report, rfl, success⟩
    exact ⟨_, carried, by simp [Outcome.done, success]⟩

/-- A check gathers the documents that the paths stand for. It succeeds exactly if there are some,
the schema compiles, and all of them load and match; and if it gets to the documents, it reports on
all of them. -/
theorem check_succeeds_iff_all_match (shows : Shows files state snapshot) (settings : Settings)
    (options : Options) (paths : List String) :
    ∃ documents, Answers (Document.collect files paths) state documents ∧
      (∀ listed, snapshot.Gathers paths listed ↔ listed = documents) ∧
      (Succeeds files state settings ⟨options, .check paths⟩ ↔
        documents ≠ [] ∧ ∃ (schema : String) (shape : Shape Empty), options.schema = some schema ∧
          snapshot.Compiles settings.compiler.emptySchema schema shape ∧
            ∀ document ∈ documents, Matches snapshot shape document) ∧
      ∀ (schema : String) (shape : Shape Empty), options.schema = some schema →
        snapshot.Compiles settings.compiler.emptySchema schema shape → documents ≠ [] →
          ∃ report, Answers (check files settings.compiler options paths).run state (.ok report) ∧
            Answers (carryOut files settings ⟨options, .check paths⟩).run state
              (.ok (.done report.succeeded report.lines)) ∧
            Covers snapshot shape documents report := by
  obtain ⟨documents, collected, gathers⟩ := Document.collect_answers shows paths
  have checked := check_answers shows settings.compiler options collected
  refine ⟨documents, collected, ?_, ?_, ?_⟩
  · intro listed
    refine ⟨fun other => Snapshot.gathers_unique other gathers, ?_⟩
    rintro rfl
    exact gathers
  · rw [succeeds_iff checked]
    constructor
    · rintro ⟨report, reported, success⟩
      obtain ⟨some, schema, shape, named, compiles, rfl⟩ := check_in_eq_ok_iff.mp reported
      exact ⟨some, schema, shape, named, compiles, (report_succeeded_iff schema documents).mp success⟩
    · rintro ⟨some, schema, shape, named, compiles, all⟩
      exact ⟨_, check_in_eq_ok_iff.mpr ⟨some, schema, shape, named, compiles, rfl⟩,
        (report_succeeded_iff schema documents).mpr all⟩
  · intro schema shape named compiles some
    rw [check_in_eq_ok_iff.mpr ⟨some, schema, shape, named, compiles, rfl⟩] at checked
    exact ⟨_, checked, carry_out_answers settings options checked, report_covers schema documents⟩

end Checking

section Workplace

def workplace : Disk where
  root := .directory [("work", .directory [
    ("schema.json", .file "\x7b\"name\": \"string\"\x7d"),
    ("docs", .directory [
      ("z.json", .file "\x7b\"name\": \"z\"\x7d"),
      ("notes.txt", .file ""),
      ("inner", .directory [("broken.json", .file "\x7b")])])])]
  current := ["work"]

theorem workplace_sound : workplace.root.Sound := by
  refine .directory (by decide) (by decide) (List.forall_mem_singleton.mpr ?_)
  refine .directory (by decide) (by decide) (List.forall_mem_cons.mpr ⟨.file _, ?_⟩)
  refine List.forall_mem_singleton.mpr (.directory (by decide) (by decide) ?_)
  refine List.forall_mem_cons.mpr ⟨.file _, List.forall_mem_cons.mpr ⟨.file _, ?_⟩⟩
  refine List.forall_mem_singleton.mpr (.directory (by decide) (by decide) ?_)
  exact List.forall_mem_singleton.mpr (.file _)

theorem workplace_compiles :
    ∃ shape : Shape Empty,
      (workplace.snapshot workplace_sound).Compiles .reject "schema.json" shape ∧
        Matches (workplace.snapshot workplace_sound) shape "docs/z.json" :=
  ⟨_, ⟨.object ⟨0, 0⟩ [("name", .string "string")], _, ⟨_, _, rfl, by cbv, rfl⟩, rfl, rfl⟩,
    .object ⟨0, 0⟩ [("name", .string "z")], ⟨_, _, rfl, by cbv, rfl⟩, by cbv⟩

theorem workplace_gathers {documents : List String}
    (gathers : (workplace.snapshot workplace_sound).Gathers ["lost.json", "docs"] documents) :
    "lost.json" ∈ documents ∧ "docs/z.json" ∈ documents := by
  constructor
  · obtain ⟨group, stands, inside⟩ := Snapshot.subset_of_gathers gathers List.mem_cons_self
    cases stands with
    | itself => exact inside List.mem_cons_self
    | below directory => cases directory
  · obtain ⟨group, stands, inside⟩ :=
      Snapshot.subset_of_gathers gathers (List.mem_cons_of_mem _ List.mem_cons_self)
    cases stands with
    | itself single => exact absurd rfl single
    | below _ _ all =>
        exact inside ((all _).mpr ⟨[], "z.json", "z", .here rfl, by decide, rfl, rfl⟩)

/-- A document that is missing fails the check, and a later one is accepted all the same. -/
theorem workplace_check_reports :
    workplace.root.Sound ∧
      ¬ Succeeds Disk.fileSystem workplace {}
        ⟨{ schema := some "schema.json" }, .check ["lost.json", "docs"]⟩ ∧
      ∃ report,
        Answers (check Disk.fileSystem {} { schema := some "schema.json" }
          ["lost.json", "docs"]).run workplace (.ok report) ∧
        report.failures ≠ 0 ∧ ("docs/z.json", .accepted) ∈ report.verdicts := by
  obtain ⟨documents, -, gathered, succeeds, reports⟩ :=
    check_succeeds_iff_all_match (Disk.disk_shows workplace workplace_sound) {}
      { schema := some "schema.json" } ["lost.json", "docs"]
  obtain ⟨lost, present⟩ := workplace_gathers ((gathered documents).mpr rfl)
  have unmatched : ∀ shape : Shape Empty,
      ¬ Matches (workplace.snapshot workplace_sound) shape "lost.json" := by
    rintro shape ⟨value, ⟨text, json, content, -, -⟩, -⟩
    cases content
  refine ⟨workplace_sound, ?_, ?_⟩
  · intro success
    obtain ⟨-, schema, shape, -, -, all⟩ := succeeds.mp success
    exact unmatched shape (all _ lost)
  · obtain ⟨shape, compiles, accepted⟩ := workplace_compiles
    obtain ⟨report, checked, -, covers⟩ :=
      reports "schema.json" shape rfl compiles (List.ne_nil_of_mem lost)
    refine ⟨report, checked, ?_, ?_⟩
    · rw [covers.counted]
      exact Nat.ne_of_gt (List.countP_pos_iff.mpr ⟨_, lost, by simpa using unmatched shape⟩)
    · obtain ⟨⟨document, verdict⟩, member, rfl⟩ := List.mem_map.mp (covers.inTurn ▸ present)
      have judged := (covers.judged _ member).accepted.mpr accepted
      exact judged ▸ member

end Workplace

end ObjectShape.CommandLine
