import ObjectShape.CommandLine.Report

/-!
# Carrying out commands

Settings are read first, whatever the command is. A document that cannot be read is a failed check
and does not end the checking.
-/

namespace ObjectShape.CommandLine

set_option autoImplicit false

variable {m : Type → Type} [Monad m]

/-- The schema that the options name, with its path. No outside predicates occur in documents. -/
def schemaOf (files : FileSystem m) (settings : CompilerSettings) (options : Options) :
    ExceptT CommandFault m (String × Shape Empty) := do
  match options.schema with
  | none => throw .noSchema
  | some path =>
      match ← (Document.loadSchema files settings.emptySchema path : m _) with
      | .ok handle => return (path, handle.shape)
      | .error fault => throw (.document fault)

def check (files : FileSystem m) (settings : CompilerSettings) (options : Options)
    (paths : List String) : ExceptT CommandFault m CheckReport := do
  let (schema, shape) ← schemaOf files settings options
  let documents ← (Document.collect files paths : m _)
  if documents.isEmpty then throw .noDocuments
  let verdicts ← documents.mapM fun path => do
    let loaded ← (Document.load files path : m _)
    return (path, Verdict.of shape loaded)
  return { schema, verdicts }

def inspect (files : FileSystem m) (settings : CompilerSettings) (options : Options)
    (json : Bool) : ExceptT CommandFault m (List String) := do
  let (path, shape) ← schemaOf files settings options
  let table := shape.describe
  if json then return [(Json.array (table.map summaryJson)).pretty]
  else return tableLines path shape.enabled table

def createSettings (files : FileSystem m) (path : String) (force : Bool) :
    ExceptT CommandFault m Unit := do
  if !force && (← (files.holds path : m _)) then throw (.occupied path)
  match ← (Settings.save {} files path : m _) with
  | .ok () => return ()
  | .error fault => throw (.unwritable path fault)

def carryOut (files : FileSystem m) (settings : Settings) (arguments : Arguments) :
    ExceptT CommandFault m Outcome := do
  match arguments.command with
  | .check paths =>
      let report ← check files settings.compiler arguments.options paths
      return .done report.succeeded report.lines
  | .inspect json => return .done true (← inspect files settings.compiler arguments.options json)
  | .showSettings => return { exitCode := 0, output := settings.toText }
  | .createSettings path force =>
      createSettings files path force
      return .done true [s!"✅ Wrote default configuration to {path}"]

def settingsOf (files : FileSystem m) (environment : Settings.Environment) (options : Options) :
    ExceptT CommandFault m Settings :=
  (Settings.load files environment options.settings).adapt .settings

def run (files : FileSystem m) (environment : Settings.Environment) (words : List String) :
    m Outcome := do
  match Arguments.read words with
  | .error refusal => return .refused refusal
  | .ok arguments =>
      let action : ExceptT CommandFault m Outcome := do
        carryOut files (← settingsOf files environment arguments.options) arguments
      match ← action.run with
      | .ok outcome => return outcome
      | .error fault => return .failed fault

end ObjectShape.CommandLine
