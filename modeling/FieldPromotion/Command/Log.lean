import FieldPromotion.Event
import FieldPromotion.Json.Value
import FieldPromotion.Text.Shown

/-!
# The log of a command

Which events are logged is said by a filter: rules that give the most detailed level to log, for
everything or for the targets that start with some name. The longest name that fits an event
decides, and of two rules for one name the later one.
-/

namespace FieldPromotion.Command

/-! ## §1 Filters -/

/-- How much is logged: a level and everything above it. `0` is nothing, `5` is everything. -/
abbrev Verbosity := Nat

/-- The least verbosity that shows a level. -/
def verbosityOf : Level → Verbosity
  | .info => 3
  | .debug => 4
  | .trace => 5

/-- A verbosity by its name, in letters of either case, or by its number. -/
def verbosity? (text : String) : Option Verbosity :=
  [("off", 0), ("error", 1), ("warn", 2), ("info", 3), ("debug", 4), ("trace", 5), ("0", 0),
    ("1", 1), ("2", 2), ("3", 3), ("4", 4), ("5", 5)].lookup text.toLower

/-- A rule of a filter, for the targets that start with a name. -/
structure Rule where
  target : String
  verbosity : Verbosity
  deriving DecidableEq, Inhabited

def isTargetChar (c : Char) : Bool :=
  c.isAlphanum || c == '_' || c == ':' || c == '-'

/-- A rule is a verbosity, or a target, or a target with its verbosity. -/
def Rule.ofText? (text : String) : Option Rule :=
  match verbosity? text with
  | some v => some { target := "", verbosity := v }
  | none =>
    let cs := text.toList
    let name := cs.takeWhile isTargetChar
    let target := String.ofList name
    if name.isEmpty then none
    else
      match cs.drop name.length with
      | [] => some { target, verbosity := 5 }
      | ['='] => some { target, verbosity := 5 }
      | '=' :: level => (verbosity? (String.ofList level)).map fun verbosity => { target, verbosity }
      | _ => none

/-- The rules that decide which events are logged. -/
abbrev Filter := List Rule

/-- Shows warnings only, of which there are none. -/
def Filter.quiet : Filter := [{ target := "", verbosity := 2 }]

/-- Shows everything. -/
def Filter.everything : Filter := [{ target := "", verbosity := 5 }]

/-- A filter as it is written, its rules divided by commas. -/
def Filter.ofText? (text : String) : Option Filter :=
  ((text.splitOn ",").filter (! ·.isEmpty)).mapM Rule.ofText?

/-- The filter of a run: everything if asked for, or else what the surroundings say. -/
def Filter.choose (trace : Bool) (surroundings : Option String) : Filter :=
  if trace then .everything else (surroundings.bind Filter.ofText?).getD .quiet

/-- The rule for a target: the longest that fits, and the last of those. -/
def Filter.ruleFor? (f : Filter) (target : String) : Option Rule :=
  (f.filter fun r => r.target.toList.isPrefixOf target.toList).foldl
    (fun best r =>
      match best with
      | none => some r
      | some b => if b.target.length ≤ r.target.length then some r else some b) none

/-- Whether an event is logged. -/
def Filter.shows (f : Filter) (e : Event) : Bool :=
  match f.ruleFor? e.target with
  | none => false
  | some r => verbosityOf e.level ≤ r.verbosity

/-! ## §2 Lines -/

def Detail.toText : Detail → String
  | .text s => s
  | .word s => Text.shown s
  | .number n => toString n

def Detail.toJson : Detail → Json
  | .text s => .str s
  | .word s => .str s
  | .number n => .int n

/-- An event as a line of text. -/
def logLine (e : Event) : String :=
  e.level.text ++ " " ++ e.target ++ ": " ++ e.message
    ++ String.join (e.details.map fun d => " " ++ d.1 ++ "=" ++ Detail.toText d.2)

/-- An event as an object. -/
def logObject (e : Event) : Json :=
  let details := e.details.map fun d => (d.1, Detail.toJson d.2)
  .obj [("level", .str e.level.text), ("fields", .obj (("message", .str e.message) :: details)),
    ("target", .str e.target)]

end FieldPromotion.Command
