import ObjectShape.CommandLine.Arguments
import ObjectShape.Documents
import ObjectShape.Json.Printer
import ObjectShape.Settings.Sources
import ObjectShape.Shape.Acceptance

/-!
# What commands report

What checking and inspecting find out, and the lines that say so.
-/

namespace ObjectShape.CommandLine

set_option autoImplicit false

inductive CommandFault where
  | settings (fault : SettingsFault)
  | noSchema
  | document (fault : DocumentFault)
  | noDocuments
  /-- A file that would be written over. -/
  | occupied (path : String)
  | unwritable (path : String) (fault : FileFault)
  deriving DecidableEq, Repr, Inhabited

def CommandFault.message : CommandFault → String
  | .settings fault => fault.message
  | .noSchema => "--schema is required for this command"
  | .document fault => fault.message
  | .noDocuments => "No JSON documents found"
  | .occupied path => s!"{path} already exists (use --force to overwrite)"
  | .unwritable path fault => s!"Failed to write {path}: {fault.message}"

inductive Verdict where
  | accepted
  | rejected
  | unread (fault : DocumentFault)
  deriving DecidableEq, Repr, Inhabited

namespace Verdict

variable {φ : Type}

def of [Host φ] (shape : Shape φ) : Except DocumentFault (Value φ) → Verdict
  | .ok value => if shape.accepts value then accepted else rejected
  | .error fault => unread fault

def line (path : String) : Verdict → String
  | .accepted => s!"  ✅ {path}"
  | .rejected => s!"  ❌ {path}"
  | .unread fault => s!"  ⚠️  {path}: {fault.message}"

end Verdict

structure CheckReport where
  schema : String
  /-- The documents in the order in which they were checked. -/
  verdicts : List (String × Verdict)
  deriving DecidableEq, Repr, Inhabited

namespace CheckReport

def failures (report : CheckReport) : Nat :=
  report.verdicts.countP fun entry => entry.2 != .accepted

def succeeded (report : CheckReport) : Bool :=
  report.failures == 0

def lines (report : CheckReport) : List String :=
  let count := report.verdicts.length
  let last :=
    if report.succeeded then "✅ All documents match"
    else s!"❌ {report.failures} of {count} document(s) do not match"
  [s!"🔍 Checking {count} document(s) against {report.schema}"] ++
    (report.verdicts.map fun entry => entry.2.line entry.1) ++ ["", last]

end CheckReport

def pad (width : Nat) (text : String) : String :=
  text ++ String.ofList (List.replicate (width - text.length) ' ')

/-- The lines about one property. A star marks one that is required. -/
def summaryLines (summary : PropertySummary) : List String :=
  let marker := if summary.required then "*" else " "
  let types := String.intercalate " | " summary.types
  (s!"  {marker} " ++ pad 32 summary.path ++ " " ++ types) ::
    summary.validators.map fun entry => s!"      └─ {entry.2} validator(s) for {entry.1.name}"

def tableLines (path : String) (enabled : Bool) (table : List PropertySummary) : List String :=
  if enabled then
    s!"📋 {path} ({table.length} properties)" :: table.flatMap summaryLines
  else ["⚠️  Schema is empty and disabled: no value will match"]

def summaryJson (summary : PropertySummary) : Json :=
  let counts := summary.validators.map fun entry => (entry.1.name, Json.integer entry.2)
  .object
    ([("path", .string summary.path), ("required", .bool summary.required),
      ("types", .array (summary.types.map .string))] ++
      if counts.isEmpty then [] else [("validators", .object counts)])

structure Outcome where
  exitCode : Nat
  output : String := ""
  errors : String := ""
  deriving DecidableEq, Repr, Inhabited

namespace Outcome

def text (lines : List String) : String :=
  String.join (lines.map fun line => line ++ "\n")

def done (succeeded : Bool) (lines : List String) : Outcome :=
  { exitCode := if succeeded then 0 else 1, output := text lines }

def failed (fault : CommandFault) : Outcome :=
  { exitCode := 1, errors := text [s!"Error: {fault.message}"] }

def refused : Refusal → Outcome
  | .malformed => { exitCode := 2 }
  | .help => { exitCode := 0 }

end Outcome

end ObjectShape.CommandLine
