import ManagementScript.Run.Basic

/-!
The command line: what its arguments ask for, and what is written where. A run either fails, and then
writes nothing but an explanation, or it writes its whole script to one place.
-/

namespace ManagementScript

/-- How a script is written. -/
inductive Format where
  | json
  | text
deriving DecidableEq, Repr

namespace Format

def name : Format → String
  | json => "json"
  | text => "text"

def ofName? (name : String) : Option Format := [json, text].find? (·.name == name)

/-- The script of a result in this format. -/
def render (format : Format) (r : RunResult) : String :=
  match format with
  | json => r.toJson.indented
  | text => r.toLines

end Format

/-! ### Arguments -/

/-- What the arguments ask for. -/
structure Invocation where
  file : String
  host : Option String
  requireNativeInterface : Bool
  format : Format
  /-- The path of the file that the script is written to in place of the standard output. -/
  output : Option String
deriving DecidableEq, Repr

/-- Why arguments are refused. -/
inductive UsageError where
  | unknownArgument (argument : String)
  | unexpectedValue (option : String)
  | missingValue (option : String)
  | invalidValue (option value : String)
  | repeated (option : String)
deriving DecidableEq, Repr

namespace UsageError

def message : UsageError → String
  | unknownArgument argument => s!"unexpected argument '{argument}' found"
  | unexpectedValue option => s!"unexpected value for '{option}' found; no more were expected"
  | missingValue option => s!"a value is required for '{option}' but none was supplied"
  | invalidValue option value => s!"invalid value '{value}' for '{option}'"
  | repeated option => s!"the argument '{option}' cannot be used multiple times"

end UsageError

namespace Invocation

/-- What was found among the arguments so far. -/
structure Found where
  file : Option String
  host : Option String
  requireNativeInterface : Bool
  format : Option Format
  output : Option String

namespace Found

def nothing : Found := ⟨none, none, false, none, none⟩

/-- The document, of which there is one. -/
def withFile (f : Found) (file : String) : Except UsageError Found :=
  if f.file.isSome then .error (.unknownArgument file)
  else if file.isEmpty then .error (.missingValue "<FILE>")
  else .ok { f with file := some file }

/-- An option with its value. -/
def withValue (f : Found) (option value : String) : Except UsageError Found :=
  match option with
  | "--host" =>
    if f.host.isSome then .error (.repeated option) else .ok { f with host := some value }
  | "--output" =>
    if f.output.isSome then .error (.repeated option)
    else if value.isEmpty then .error (.missingValue option)
    else .ok { f with output := some value }
  | "--format" =>
    match Format.ofName? value with
    | none => .error (.invalidValue option value)
    | some format =>
      if f.format.isSome then .error (.repeated option) else .ok { f with format := some format }
  | "--require-native-interface" => .error (.unexpectedValue option)
  | _ => .error (.unknownArgument option)

/-- An option without a value. -/
def withFlag (f : Found) (option : String) : Except UsageError Found :=
  if option == "--require-native-interface" then
    if f.requireNativeInterface then .error (.repeated option)
    else .ok { f with requireNativeInterface := true }
  else .error (.unknownArgument option)

end Found

def takesValue (option : String) : Bool :=
  option == "--host" || option == "--format" || option == "--output"

/-- Whether an argument is not an option. A single dash stands for itself. -/
def isPlain (argument : String) : Bool := argument == "-" || !argument.startsWith "-"

/-- The option and the value that are joined in one argument. -/
def splitOption? (argument : String) : Option (String × String) :=
  match argument.toList.span (· != '=') with
  | (_, []) => none
  | (option, _ :: value) => some (String.ofList option, String.ofList value)

/-- Reads arguments behind those that gave `found`. Behind two dashes there are no options. -/
def parseFrom (found : Found) : List String → Except UsageError Found
  | [] => .ok found
  | "--" :: rest => rest.foldlM Found.withFile found
  | [argument] =>
    if isPlain argument then found.withFile argument
    else
      match splitOption? argument with
      | some (option, value) => found.withValue option value
      | none => if takesValue argument then .error (.missingValue argument) else found.withFlag argument
  | argument :: value :: rest =>
    if isPlain argument then do parseFrom (← found.withFile argument) (value :: rest)
    else
      match splitOption? argument with
      | some (option, joined) => do parseFrom (← found.withValue option joined) (value :: rest)
      | none =>
        if takesValue argument then
          if isPlain value then do parseFrom (← found.withValue argument value) rest
          else .error (.missingValue argument)
        else do parseFrom (← found.withFlag argument) (value :: rest)

/-- What the arguments ask for. The format is `json` unless another is asked for. -/
def parse (arguments : List String) : Except UsageError Invocation := do
  let found ← parseFrom .nothing arguments
  match found.file with
  | none => throw (.missingValue "<FILE>")
  | some file =>
    return ⟨file, found.host, found.requireNativeInterface, found.format.getD .json, found.output⟩

/-- The options of the run: the arguments add to what the environment asks for. -/
def options (i : Invocation) (p : Preferences) : RunOptions :=
  let o := RunOptions.ofPreferences p
  let o := match i.host with
    | some host => o.withHost host
    | none => o
  if i.requireNativeInterface then o.requiringNativeInterface else o

end Invocation

/-! ### Runs -/

/-- How files are reached. -/
structure FileAccess (m : Type → Type) where
  /-- What a path leads to. -/
  entry : String → m Entry
  /-- Writes a file. -/
  write : String → ByteArray → m (Except AccessError Unit)

/-- The files of a store. -/
def Store.access : FileAccess (StateM Store) where
  entry path := return (← get).entry path
  write path bytes := fun s =>
    match s.write path bytes with
    | .ok s => (.ok (), s)
    | .error e => (.error e, s)

/-- What a program leaves behind besides files. -/
structure Outcome where
  status : Nat
  output : String
  errors : String
deriving DecidableEq, Repr

namespace Outcome

def success (output : String) : Outcome := ⟨0, output, ""⟩

/-- A failure with its explanation and the report of the errors in the journal. -/
def failure (explanation : String) (journal : Journal) : Outcome :=
  ⟨1, "", s!"{explanation}\n{journal.collector.report}\n"⟩

/-- The outcome of arguments that are refused. -/
def refused (e : UsageError) : Outcome := ⟨2, "", s!"error: {e.message}\n"⟩

end Outcome

namespace CommandLine

variable {m : Type → Type} [Monad m]

/-- Writes what a run has rendered to where it is asked for. -/
def deliver (files : FileAccess m) (target : Option String) (rendered : String) (journal : Journal) :
    m Outcome := do
  match target with
  | none => return .success (rendered.push '\n')
  | some path =>
    match ← files.write path rendered.toUTF8 with
    | .ok () => return .success ""
    | .error e => return .failure s!"error: cannot write {path}: {e.message}" journal

/-- Does what an invocation asks for. -/
def perform (files : FileAccess m) (p : Preferences) (timing : Timing) (i : Invocation) : m Outcome := do
  let entry ← files.entry i.file
  match Run.recorded ⟨i.options p, p.logging, timing⟩ i.file entry .empty with
  | (.ok result, journal) => deliver files i.output (i.format.render result) journal
  | (.error e, journal) => return .failure s!"error[{e.code}]: {e.message}" journal

/-- Runs the program with its arguments. -/
def run (files : FileAccess m) (env : Environment) (timing : Timing) (arguments : List String) :
    m Outcome := do
  match Invocation.parse arguments with
  | .ok i => perform files (.ofEnvironment env) timing i
  | .error e => return .refused e

end CommandLine

end ManagementScript
