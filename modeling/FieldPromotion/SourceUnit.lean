import FieldPromotion.Diagnostic.Record
import FieldPromotion.Diagnostic.Snippet
import FieldPromotion.Promotion.Module

/-!
# Source units

A unit is a module as another program hands it over: the name of its file, the source text if it is
at hand, and the tree.
-/

namespace FieldPromotion

open Json

structure SourceUnit where
  name : String
  source : Option String := none
  module : Module

namespace SourceUnit

def decoder : Decoder SourceUnit :=
  Decoder.record "SourceUnit"
    (.cons (.required "name" Decoder.string) <|
     .cons (.defaulting "source" (Decoder.optional Decoder.string) none) <|
     .cons (.required "module" Module.decoder) .nil)
    fun (name, source, module, ()) => { name, source, module }

def toJson (u : SourceUnit) : Json :=
  .obj [("name", .str u.name), ("source", .ofOption .str u.source), ("module", u.module.toJson)]

/-- Reads the JSON text of a unit. -/
def ofText (text : String) : Except ReadError SourceUnit :=
  decoder.read text

/-- The records of errors in a unit. Without source there are none if one of the errors has none. -/
def records? (u : SourceUnit) (errors : List Error) : Option (List DiagnosticRecord) :=
  match u.source with
  | some source => some (errors.map fun e => .ofSource u.name source e.diagnostic)
  | none => errors.mapM (DiagnosticRecord.ofError? u.name)

end SourceUnit

/-- The JSON form of what was promoted. -/
def FieldSummary.toJson (f : FieldSummary) : Json :=
  .obj [("name", .str f.name), ("storage", f.storage.toJson), ("visibility", f.visibility.toJson),
    ("span", f.span.toJson)]

def ClassReport.toJson (r : ClassReport) : Json :=
  .obj [("class", .str r.cls), ("fields", .ofList FieldSummary.toJson r.fields)]

def Report.toJson (r : Report) : Json :=
  .obj [("classes", .ofList ClassReport.toJson r.classes)]

/-! ## Styled text -/

/-- Whether output is styled for a terminal. -/
inductive Ink where
  | plain
  | styled
  deriving DecidableEq, Inhabited

/-- The colors that are used. -/
inductive Color where
  | green
  | red
  deriving DecidableEq, Inhabited

def Color.code : Color → String
  | .green => "\x1b[32m"
  | .red => "\x1b[31m"

/-- Bold text in some color. -/
def Ink.bold (ink : Ink) (color : Option Color) (text : String) : String :=
  match ink with
  | .plain => text
  | .styled => "\x1b[0m\x1b[1m" ++ (color.map Color.code).getD "" ++ text ++ "\x1b[0m"

/-- An error on one line, for units without source. -/
def Error.line (ink : Ink) (file : String) (e : Error) : String :=
  ink.bold none (file ++ ":" ++ toString e.span.line ++ ":" ++ toString e.span.column) ++ ": "
    ++ ink.bold (some .red) ("error[" ++ e.code ++ "]") ++ ": " ++ e.message ++ "\n"

/-- The errors of a unit as they are shown to people. -/
def SourceUnit.draw (ink : Ink) (u : SourceUnit) (errors : List Error) : String :=
  match u.source with
  | some source => String.join (errors.map fun e => e.diagnostic.draw u.name source)
  | none => String.join (errors.map (Error.line ink u.name))

end FieldPromotion
