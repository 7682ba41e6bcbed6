import FieldPromotion.Command.Arguments
import FieldPromotion.Command.Log
import FieldPromotion.Files
import FieldPromotion.SourceUnit
import FieldPromotion.Tree.Print

/-!
# Running a command

A command loads its configuration, then its unit, promotes the fields, and prints. Nothing here
reads a file: the surroundings of a command are a value.
-/

namespace FieldPromotion.Command

/-! ## §1 Surroundings and output -/

/-- A configuration file: its path as it is shown, and its text if it can be read. -/
structure ConfigFile where
  path : String
  text : Option String
  deriving DecidableEq, Inhabited

/-- What a command can see. -/
structure Surroundings where
  /-- The text of a file, by its path as a user writes it. -/
  read? : String → Option String
  /-- The nearest configuration file. -/
  nearestConfig : Option ConfigFile := none
  /-- Whether colors are switched off for all programs. -/
  noColor : Bool := false
  /-- The log filter for all programs. -/
  logFilter : Option String := none

/-- Why a command could not start, or broke off. -/
inductive Failure where
  | configNotLoaded (path : String)
  | unitNotRead (path : String)
  | unitInvalid (path : String)
  | columnTooLarge
  deriving DecidableEq, Inhabited

def Failure.message : Failure → String
  | .configNotLoaded path => "Failed to load " ++ path
  | .unitNotRead path => "Failed to read " ++ path
  | .unitInvalid path => "Invalid source unit " ++ path
  | .columnTooLarge => "attempt to add with overflow"

/-- What a command leaves behind. -/
structure Output where
  exit : Nat := 0
  stdout : String := ""
  stderr : String := ""
  /-- Why the command could not start or broke off, if so. -/
  failure : Option Failure := none
  /-- All events, shown or not. -/
  events : List Event := []
  deriving Inhabited

/-! ## §2 Loading -/

namespace Invocation

/-- The configuration file of a command: the one it names, or else the nearest. -/
def configFile (i : Invocation) (s : Surroundings) : Option ConfigFile :=
  match i.config with
  | some path => some { path, text := s.read? path }
  | none => s.nearestConfig

def loadOptions (i : Invocation) (s : Surroundings) : Except Failure Options :=
  match i.configFile s with
  | none => .ok {}
  | some file =>
    match file.text.bind Config.parse? with
    | some c => .ok c.options
    | none => .error (.configNotLoaded file.path)

def loadUnit (i : Invocation) (s : Surroundings) : Except Failure SourceUnit :=
  match s.read? i.file with
  | none => .error (.unitNotRead i.file)
  | some text =>
    match SourceUnit.ofText text with
    | .ok u => .ok u
    | .error _ => .error (.unitInvalid i.file)

/-- Output is styled only on demand, and never if colors are switched off. -/
def ink (i : Invocation) (s : Surroundings) : Ink :=
  if i.color = some "always" ∧ s.noColor = false then .styled else .plain

/-! ## §3 Printing -/

/-- What is printed when all went well. -/
def success (i : Invocation) (ink : Ink) (name : String) (m : Module) (r : Report) : String :=
  match i.verb with
  | .desugar =>
    match i.emission with
    | .tree => m.toJson.pretty ++ "\n"
    | .source => m.print
    | .nothing => ""
  | .check =>
    match i.format with
    | .json => r.toJson.pretty ++ "\n"
    | .pretty =>
      ink.bold (some .green) "ok" ++ " " ++ name ++ ": " ++ toString r.fieldCount
        ++ " argument field(s) in " ++ toString r.classes.length ++ " class(es)\n"

/-- What is printed when there were errors. The command breaks off when there are no records of
them. -/
def complaint (i : Invocation) (ink : Ink) (u : SourceUnit) (errors : List Error) : Output :=
  match i.format with
  | .json =>
    match u.records? errors with
    | some records =>
      { exit := 1, stdout := (Json.ofList DiagnosticRecord.toJson records).pretty ++ "\n" }
    | none =>
      { exit := 101
        stderr := Failure.columnTooLarge.message ++ "\n"
        failure := some .columnTooLarge }
  | .pretty =>
    { exit := 1
      stderr := u.draw ink errors ++ toString errors.length
        ++ (if errors.length = 1 then " error in " else " errors in ") ++ u.name ++ "\n" }

/-! ## §4 Running -/

/-- Works on a loaded unit. -/
def process (i : Invocation) (ink : Ink) (options : Options) (u : SourceUnit) : Output :=
  let outcome := u.module.promote {} options
  let started := if i.verb = .desugar then [Event.unitStarted u.name] else []
  match outcome.result with
  | .ok r =>
    let done := if i.verb = .desugar then [Event.unitDone r.classes.length r.fieldCount] else []
    { stdout := i.success ink u.name outcome.module r
      events := started ++ outcome.events ++ done }
  | .error errors => { i.complaint ink u errors with events := started ++ outcome.events }

/-- Runs a command. The configuration is loaded before the unit. -/
def run (i : Invocation) (s : Surroundings) : Output :=
  let loading := ((i.configFile s).map fun file => Event.loadingConfig file.path).toList
  let loaded := do
    let options ← i.loadOptions s
    let u ← i.loadUnit s
    return (options, u)
  match loaded with
  | .error f =>
    { exit := 1, stderr := "Error: " ++ f.message ++ "\n", failure := some f, events := loading }
  | .ok (options, u) =>
    let out := i.process (i.ink s) options u
    { out with events := loading ++ out.events }

/-- The events of a run that are logged. -/
def logged (i : Invocation) (s : Surroundings) (out : Output) : List Event :=
  out.events.filter (Filter.choose i.trace s.logFilter).shows

end Invocation

/-- The name and version of the program. -/
def versionText : String := "argfieldc 0.2.0\n"

/-- How the program is used. -/
def usageText : String :=
  "Usage: argfieldc [OPTIONS] <COMMAND>\n\nCommands:\n" ++
  "  desugar <FILE> [--emit json|source|none] [--format pretty|json] [--config <CONFIG>]\n" ++
  "  check <FILE> [--format pretty|json] [--config <CONFIG>]\n\nOptions:\n" ++
  "  --trace\n  --log-format text|json\n  --color <COLOR>\n  -h, --help\n  -V, --version\n"

/-! ## §5 Commands in a file tree -/

/-- The surroundings of a command that runs in a directory of a file tree; `root` is how the root
of the tree is shown. -/
def Surroundings.inTree (t : FileTree) (root : String) (here : Path) (noColor : Bool)
    (logFilter : Option String) : Surroundings where
  read? text := (Route.ofText? text).bind (t.readAt? here)
  nearestConfig := (t.findConfig? here).map fun r =>
    { path := root ++ "/" ++ r.text, text := t.readAt? [] r }
  noColor := noColor
  logFilter := logFilter

end FieldPromotion.Command
