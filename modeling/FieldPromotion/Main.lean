import FieldPromotion.Command.Run

/-!
# The program

Collects what a command can see, runs the command, and writes what it leaves behind.
-/

namespace FieldPromotion.Command

/-- The text of a file; whether there is a file at all is told apart from whether it can be read. -/
inductive FileView where
  | absent
  | unreadable
  | text (value : String)

def FileView.text? : FileView → Option String
  | .text value => some value
  | _ => none

/-- Looks at a file. A directory is no file. -/
def viewFile (path : String) : IO FileView := do
  match ← (IO.FS.readFile path).toBaseIO with
  | .ok value => return .text value
  | .error (.userError _) => return .unreadable
  | .error (.permissionDenied _ _ _) => return .unreadable
  | .error _ => return .absent

/-- The first of some paths that leads to a file. -/
def firstFile? : List String → IO (Option ConfigFile)
  | [] => return none
  | path :: paths => do
    match ← viewFile path with
    | .absent => firstFile? paths
    | view => return some { path, text := view.text? }

/-- Collects what a command can see. -/
def lookAround (i : Invocation) : IO Surroundings := do
  let here := ((toString (← IO.currentDir)).splitOn "/").filter (! ·.isEmpty)
  let nearest ←
    if i.config.isSome then pure none
    else firstFile? ((Route.configs here).map fun r => "/" ++ r.text)
  let paths := i.file :: i.config.toList
  let views ← paths.mapM fun path => return (path, (← viewFile path).text?)
  return {
    read? := fun path => (views.lookup path).join
    nearestConfig := nearest
    noColor := (← IO.getEnv "NO_COLOR").isSome
    logFilter := ← IO.getEnv "RUST_LOG" }

/-- Writes a log line. -/
def writeLog (format : LogFormat) (e : Event) : IO Unit :=
  match format with
  | .text => IO.eprintln (logLine e)
  | .json => IO.eprintln (logObject e).compact

end FieldPromotion.Command

open FieldPromotion.Command in
/-- Runs the command that the arguments ask for. -/
def main (args : List String) : IO UInt32 := do
  match Request.ofWords args with
  | .version => IO.print versionText; return 0
  | .help => IO.print usageText; return 0
  | .usageError => IO.eprint usageText; return 2
  | .run i =>
    let around ← lookAround i
    let out := i.run around
    (i.logged around out).forM (writeLog i.logFormat)
    IO.print out.stdout
    IO.eprint out.stderr
    return out.exit.toUInt32
