/-!
# Command lines

A command line names a command, the file it works on, and options. Options that concern the whole
program may stand before the command or after it; the others stand after it. A line is read from
left to right, and the first word that does not fit makes it a usage error.
-/

namespace FieldPromotion.Command

/-! ## §1 What can be asked -/

/-- What is printed of a module whose fields have been promoted. -/
inductive Emission where
  | tree
  | source
  | nothing
  deriving DecidableEq, Inhabited

def Emission.ofText? : String → Option Emission
  | "json" => some .tree
  | "source" => some .source
  | "none" => some .nothing
  | _ => none

/-- How reports and errors are printed. -/
inductive Format where
  | pretty
  | json
  deriving DecidableEq, Inhabited

def Format.ofText? : String → Option Format
  | "pretty" => some .pretty
  | "json" => some .json
  | _ => none

/-- How log lines are written. -/
inductive LogFormat where
  | text
  | json
  deriving DecidableEq, Inhabited

def LogFormat.ofText? : String → Option LogFormat
  | "text" => some .text
  | "json" => some .json
  | _ => none

/-- The commands: promote the fields of a unit, or only say whether that works. -/
inductive Verb where
  | desugar
  | check
  deriving DecidableEq, Inhabited

def Verb.ofText? : String → Option Verb
  | "desugar" => some .desugar
  | "check" => some .check
  | _ => none

/-- The options of the whole program, as far as they are given. -/
structure Globals where
  trace : Bool := false
  logFormat : Option LogFormat := none
  color : Option String := none
  deriving DecidableEq, Inhabited

/-- Options after the command win over those before it. -/
def Globals.merge (before after : Globals) : Globals where
  trace := before.trace || after.trace
  logFormat := after.logFormat <|> before.logFormat
  color := after.color <|> before.color

/-- What stands after a command, as far as it is given. -/
structure Given where
  globals : Globals := {}
  file : Option String := none
  emission : Option Emission := none
  format : Option Format := none
  config : Option String := none
  deriving DecidableEq, Inhabited

/-- A complete command. -/
structure Invocation where
  verb : Verb
  file : String
  emission : Emission := .source
  format : Format := .pretty
  config : Option String := none
  trace : Bool := false
  logFormat : LogFormat := .text
  color : Option String := none
  deriving DecidableEq, Inhabited

/-- What a command line asks for. -/
inductive Request where
  | run (i : Invocation)
  | version
  | help
  | usageError
  deriving DecidableEq, Inhabited

/-! ## §2 Words -/

/-- A word of a command line. -/
inductive Word where
  /-- Two dashes alone: only plain words follow. -/
  | dashes
  /-- An option with a long name, and the value after its equals sign. -/
  | long (name : String) (value : Option String)
  /-- Options with short names. -/
  | short (names : List Char)
  | plain (text : String)
  deriving DecidableEq, Inhabited

def Word.ofText (text : String) : Word :=
  match text.toList with
  | ['-', '-'] => .dashes
  | '-' :: '-' :: cs =>
    let name := cs.takeWhile (· != '=')
    match cs.drop name.length with
    | [] => .long (String.ofList name) none
    | _ :: value => .long (String.ofList name) (some (String.ofList value))
  | '-' :: c :: cs => .short (c :: cs)
  | _ => .plain text

/-- The value of an option: what stands after its equals sign, or else the next word, which must
not look like an option. -/
def valueOf? (attached : Option String) (rest : List String) : Option (String × List String) :=
  match attached, rest with
  | some v, rest => some (v, rest)
  | none, [] => none
  | none, next :: rest =>
    match Word.ofText next with
    | .plain v => some (v, rest)
    | _ => none

/-- A path must not be empty. -/
def path? (text : String) : Option String :=
  if text.isEmpty then none else some text

/-- Sets a part that must not be set yet. -/
def fresh? {α β : Type} (old : Option α) (new : Option β) : Option β :=
  if old.isSome then none else new

/-! ## §3 Options -/

namespace Globals

/-- Takes an option of the whole program. `none` if it is not one; then `some none` if it is used
wrongly. -/
def take? (g : Globals) (name : String) (attached : Option String) (rest : List String) :
    Option (Option (Globals × List String)) :=
  if name = "trace" then
    some (if g.trace || attached.isSome then none else some ({ g with trace := true }, rest))
  else if name = "log-format" then
    some do
      let (v, rest) ← valueOf? attached rest
      let f ← fresh? g.logFormat (LogFormat.ofText? v)
      return ({ g with logFormat := some f }, rest)
  else if name = "color" then
    some do
      let (v, rest) ← valueOf? attached rest
      let c ← fresh? g.color (some v)
      return ({ g with color := some c }, rest)
  else none

end Globals

namespace Given

/-- Takes the file. -/
def takeFile? (g : Given) (text : String) : Option Given := do
  let f ← fresh? g.file (path? text)
  return { g with file := some f }

/-- Takes an option that stands after a command. -/
def takeOption? (verb : Verb) (g : Given) (name : String) (attached : Option String)
    (rest : List String) : Option (Given × List String) :=
  match g.globals.take? name attached rest with
  | some r => r.map fun r => ({ g with globals := r.1 }, r.2)
  | none =>
    if name = "emit" ∧ verb = .desugar then do
      let (v, rest) ← valueOf? attached rest
      let e ← fresh? g.emission (Emission.ofText? v)
      return ({ g with emission := some e }, rest)
    else if name = "format" then do
      let (v, rest) ← valueOf? attached rest
      let f ← fresh? g.format (Format.ofText? v)
      return ({ g with format := some f }, rest)
    else if name = "config" then do
      let (v, rest) ← valueOf? attached rest
      let c ← fresh? g.config (path? v)
      return ({ g with config := some c }, rest)
    else none

/-- The command, once everything is read. The file has to be given. -/
def finish (verb : Verb) (before : Globals) (g : Given) : Request :=
  match g.file with
  | none => .usageError
  | some file =>
    let globals := before.merge g.globals
    .run {
      verb, file
      emission := g.emission.getD .source
      format := g.format.getD .pretty
      config := g.config
      trace := globals.trace
      logFormat := globals.logFormat.getD .text
      color := globals.color }

end Given

/-! ## §4 Lines -/

/-- Reads what stands after a command; every word uses up some of the fuel. -/
def readAfter (verb : Verb) (before : Globals) : Nat → Given → List String → Request
  | _, g, [] => g.finish verb before
  | 0, _, _ => .usageError
  | fuel + 1, g, text :: rest =>
    match Word.ofText text with
    | .dashes =>
      match rest.foldlM Given.takeFile? g with
      | some g => g.finish verb before
      | none => .usageError
    | .long name attached =>
      if name = "help" ∧ attached = none then .help
      else
        match g.takeOption? verb name attached rest with
        | some (g, rest) => readAfter verb before fuel g rest
        | none => .usageError
    | .short names => if names.head? = some 'h' then .help else .usageError
    | .plain word =>
      match g.takeFile? word with
      | some g => readAfter verb before fuel g rest
      | none => .usageError

/-- Reads what stands before the command, and then the rest. -/
def readBefore : Nat → Globals → List String → Request
  | _, _, [] => .usageError
  | 0, _, _ => .usageError
  | fuel + 1, g, text :: rest =>
    match Word.ofText text with
    | .dashes => .usageError
    | .long name attached =>
      if name = "version" ∧ attached = none then .version
      else if name = "help" ∧ attached = none then .help
      else
        match g.take? name attached rest with
        | some (some (g, rest)) => readBefore fuel g rest
        | _ => .usageError
    | .short names =>
      if names.head? = some 'V' then .version
      else if names.head? = some 'h' then .help
      else .usageError
    | .plain word =>
      match Verb.ofText? word with
      | some verb => readAfter verb g rest.length {} rest
      | none =>
        if word = "help" ∧ rest.length ≤ 1 ∧ rest.all fun w => (Verb.ofText? w).isSome then .help
        else .usageError

/-- What a command line asks for. -/
def Request.ofWords (words : List String) : Request :=
  readBefore words.length {} words

end FieldPromotion.Command
