import FieldPromotion.Diagnostic.Basic
import FieldPromotion.Diagnostic.Position
import FieldPromotion.Json.Value

/-!
# Diagnostics for other programs

The JSON form of a diagnostic names every place by file, line and column. When the source is at
hand, all labels are kept and their positions are computed from it. Without the source, only the
place of the error itself is given, as far as its span tells. Columns are numbers of 64 bits, so there
is no record of an error whose span would end at a column beyond them.
-/

namespace FieldPromotion

/-- A marked place by lines and columns. -/
structure PlacedLabel where
  file : String
  start : Position
  stop : Position
  message : String
  style : LabelStyle
  deriving DecidableEq, Inhabited

/-- A diagnostic with its places. -/
structure DiagnosticRecord where
  code : String
  message : String
  labels : List PlacedLabel
  notes : List String
  deriving DecidableEq, Inhabited

def LabelStyle.text : LabelStyle → String
  | .primary => "primary"
  | .secondary => "secondary"

namespace DiagnosticRecord

/-- The record of a diagnostic whose source is at hand. -/
def ofSource (file source : String) (d : Diagnostic) : DiagnosticRecord :=
  let lines := SourceLine.ofSource source
  { code := d.code
    message := d.message
    labels := d.labels.map fun l =>
      { file
        start := SourceLine.locate lines l.start.toNat
        stop := SourceLine.locate lines l.stop.toNat
        message := l.message
        style := l.style }
    notes := d.notes }

/-- The column at which a span ends on its line, unless the sum is too large for 64 bits. -/
def endColumn? (s : Span) : Option UInt64 :=
  let sum := s.column.toUInt64 + s.length
  -- a sum that does not fit comes out smaller than its parts
  if sum < s.length then none else some sum

/-- The place of a span on its line. -/
def placeOfSpan? (file : String) (s : Span) (l : Label) : Option PlacedLabel :=
  (endColumn? s).map fun column =>
    { file
      start := ⟨s.line.toNat, s.column.toNat⟩
      stop := ⟨s.line.toNat, column.toNat⟩
      message := l.message
      style := l.style }

/-- The record of an error whose source is not at hand. -/
def ofError? (file : String) (e : Error) : Option DiagnosticRecord :=
  ((e.labels.filter (·.style == .primary)).mapM (placeOfSpan? file e.span)).map fun labels =>
    { code := e.code
      message := e.message
      labels
      notes := e.notes }

end DiagnosticRecord

def PlacedLabel.toJson (l : PlacedLabel) : Json :=
  .obj [("file", .str l.file),
    ("start_line", .nat l.start.line), ("start_column", .nat l.start.column),
    ("end_line", .nat l.stop.line), ("end_column", .nat l.stop.column),
    ("message", .str l.message), ("style", .str l.style.text)]

def DiagnosticRecord.toJson (d : DiagnosticRecord) : Json :=
  .obj [("code", .str d.code), ("severity", .str "error"), ("message", .str d.message),
    ("labels", .ofList PlacedLabel.toJson d.labels), ("notes", .ofList Json.str d.notes)]

end FieldPromotion
