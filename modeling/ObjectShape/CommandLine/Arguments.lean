/-!
# Arguments of the program

Options stand before the command and are given at most once. A command has words of its own; two
dashes alone say that all words after them are paths, whatever they look like.
-/

namespace ObjectShape.CommandLine

set_option autoImplicit false

inductive Command where
  | check (paths : List String)
  /-- Show the table of the schema, as JSON or to be read. -/
  | inspect (json : Bool)
  | showSettings
  /-- Write the default settings into a file; `force` writes over one that is there. -/
  | createSettings (path : String) (force : Bool)
  deriving DecidableEq, Repr, Inhabited

structure Options where
  schema : Option String := none
  /-- The name of a document with settings. -/
  settings : Option String := none
  deriving DecidableEq, Repr, Inhabited

structure Arguments where
  options : Options
  command : Command
  deriving DecidableEq, Repr, Inhabited

inductive Refusal where
  | malformed
  /-- The user asked what can be asked for. -/
  | help
  deriving DecidableEq, Repr, Inhabited

inductive OptionName where
  | schema
  | settings
  deriving DecidableEq, Repr, Inhabited

namespace OptionName

def all : List OptionName := [schema, settings]

def word : OptionName → String
  | .schema => "schema"
  | .settings => "config"

def letter : OptionName → Char
  | .schema => 's'
  | .settings => 'c'

/-- Whether the characters spell the option, and if so the value that is attached to it. The value
follows a long name after an equals sign, and a letter with or without one. -/
def attached? (name : OptionName) : List Char → Option (Option (List Char))
  | '-' :: '-' :: rest =>
      let (spelled, value) := rest.span (· != '=')
      if spelled = name.word.toList then some value.tail? else none
  | '-' :: letter :: rest =>
      if letter = name.letter then
        match rest with
        | [] => some none
        | '=' :: value => some (some value)
        | value => some (some value)
      else none
  | _ => none

end OptionName

def option? (word : String) : Option (OptionName × Option String) :=
  OptionName.all.findSome? fun name =>
    (name.attached? word.toList).map fun value => (name, value.map String.ofList)

/-- Whether the word is an option of some kind. A dash alone is a value. -/
def looksLikeOption (word : String) : Bool :=
  match word.toList with
  | '-' :: _ :: _ => true
  | _ => false

def asksForHelp (word : String) : Bool :=
  word == "--help" || "-h".toList.isPrefixOf word.toList

def refuse {α : Type} (word : String) : Except Refusal α :=
  .error (if asksForHelp word then .help else .malformed)

def path (word : String) : Except Refusal String :=
  if word.isEmpty then .error .malformed else .ok word

def readPaths : List String → Except Refusal (List String)
  | [] => .ok []
  | word :: rest =>
      if word = "--" then rest.mapM path
      else if looksLikeOption word then refuse word
      else do return (← path word) :: (← readPaths rest)

def readCheck (words : List String) : Except Refusal Command := do
  match ← readPaths words with
  | [] => .error .malformed
  | paths => return .check paths

def readInspect (json : Bool) : List String → Except Refusal Command
  | [] | ["--"] => .ok (.inspect json)
  | word :: rest =>
      if word = "--json" && !json then readInspect true rest else refuse word

def readShow : List String → Except Refusal Command
  | [] | ["--"] => .ok .showSettings
  | word :: _ => refuse word

/-- The command that writes settings. `path` is what was given as the path so far. -/
def readCreate (path : Option String) (force : Bool) : List String → Except Refusal Command
  | [] => .ok (.createSettings (path.getD "schematic.toml") force)
  | word :: rest =>
      if word = "--" then
        match path.toList ++ rest with
        | [] => .ok (.createSettings "schematic.toml" force)
        | [path] => .ok (.createSettings path force)
        | _ => .error .malformed
      else if word = "--force" && !force then readCreate path true rest
      else if looksLikeOption word || path.isSome then refuse word
      else readCreate (some word) force rest

def readSettingsCommand : List String → Except Refusal Command
  | [] => .error .malformed
  | "show" :: rest => readShow rest
  | "init" :: rest => readCreate none false rest
  | "help" :: _ => .error .help
  | word :: _ => refuse word

def readCommand : List String → Except Refusal Command
  | [] => .error .malformed
  | "check" :: rest => readCheck rest
  | "inspect" :: rest => readInspect false rest
  | "config" :: rest => readSettingsCommand rest
  | "help" :: _ => .error .help
  | word :: _ => refuse word

/-- Takes the value of an option, which must not have one yet. -/
def Options.give (options : Options) (name : OptionName) (value : String) :
    Except Refusal Options := do
  match name, options with
  | .schema, { schema := none, settings } => return { schema := some (← path value), settings }
  | .settings, { schema, settings := none } => return { schema, settings := some value }
  | _, _ => .error .malformed

/-- Reads options and then the command. A value that is not attached is the next word, unless that
is an option itself. -/
def readArguments (options : Options) : List String → Except Refusal Arguments
  | [] => .error .malformed
  | word :: rest =>
      match option? word with
      | none => do return { options, command := ← readCommand (word :: rest) }
      | some (name, some value) => do readArguments (← options.give name value) rest
      | some (name, none) =>
          match rest with
          | [] => .error .malformed
          | value :: rest =>
              if looksLikeOption value then .error .malformed
              else do readArguments (← options.give name value) rest

def Arguments.read (words : List String) : Except Refusal Arguments :=
  readArguments {} words

end ObjectShape.CommandLine
