import FieldPromotion.Diagnostic.Basic
import FieldPromotion.Diagnostic.Position

/-!
# Diagnostics for people

A diagnostic is drawn over the lines of the source that it points at. Every line has a gutter with
its number, and the marks of its labels stand below it. The message of the rightmost label follows
its marks; the other messages hang below, each on a line of its own under the start of its label.
-/

namespace FieldPromotion

namespace Snippet

/-! ## §1 Labels of a line -/

/-- A label on one line, by byte offsets from the start of the line. -/
structure Mark where
  style : LabelStyle
  start : Nat
  stop : Nat
  message : String
  deriving DecidableEq, Inhabited

/-- A line that has labels. -/
structure MarkedLine where
  index : Nat
  marks : List Mark
  deriving Inhabited

/-- Whether two ranges share a byte. -/
def overlap (a b : Nat × Nat) : Bool :=
  max a.1 b.1 < min a.2 b.2

/-- The mark of a label on the line it starts on; it covers one byte at least. -/
def markOf (l : SourceLine) (label : Label) : Mark :=
  let start := label.start.toNat - l.start
  { style := label.style
    start
    stop := max (label.stop.toNat - l.start) (start + 1)
    message := label.message }

/-- Whether one mark stands before another. -/
def Mark.before (a b : Mark) : Bool :=
  a.start < b.start || (a.start == b.start && a.stop < b.stop)

/-- Puts a mark among sorted ones, in front of those at the same place. -/
def insertMark (m : Mark) : List Mark → List Mark
  | [] => [m]
  | x :: xs => if x.before m then x :: insertMark m xs else m :: x :: xs

/-- Adds a mark to its line, keeping the lines in order. -/
def addMark (index : Nat) (m : Mark) : List MarkedLine → List MarkedLine
  | [] => [⟨index, [m]⟩]
  | l :: ls =>
    if l.index = index then ⟨index, insertMark m l.marks⟩ :: ls
    else if index < l.index then ⟨index, [m]⟩ :: l :: ls
    else l :: addMark index m ls

/-- The lines that the labels of a diagnostic stand on. -/
def markedLines (lines : List SourceLine) (labels : List Label) : List MarkedLine :=
  labels.foldl (fun acc label =>
    let index := SourceLine.indexOf lines label.start.toNat
    addMark index (markOf ((lines[index]?).getD default) label) acc) []

/-! ## §2 Marks below a line -/

/-- A character of a line: the bytes it has there and the number of columns it takes. -/
structure Cell where
  start : Nat
  stop : Nat
  width : Nat
  deriving DecidableEq, Inhabited

/-- The columns that a character takes in front of which `column` are taken already. A tab reaches
to the next multiple of four, and other control characters take none. -/
def widthAt (column : Nat) (c : Char) : Nat :=
  if c == '\t' then 4 - column % 4
  else if c.toNat < 0x20 || (0x7f ≤ c.toNat && c.toNat < 0xa0) then 0
  else 1

/-- The cells of a text that starts at a byte and a column. -/
def cellsFrom (start column : Nat) : List Char → List Cell
  | [] => []
  | c :: cs =>
    let width := widthAt column c
    ⟨start, start + c.utf8Size, width⟩ :: cellsFrom (start + c.utf8Size) (column + width) cs

/-- A line as it is shown, with blanks in place of tabs. -/
def shownFrom (column : Nat) : List Char → List Char
  | [] => []
  | c :: cs =>
    let width := widthAt column c
    (if c == '\t' then List.replicate width ' ' else [c]) ++ shownFrom (column + width) cs

/-- A line without the line end. -/
def trimmed (l : SourceLine) : List Char :=
  (l.chars.reverse.dropWhile fun c => c == '\n' || c == '\r' || c == '\x00').reverse

/-- The style in which a byte range is marked, if it is; primary marks cover secondary ones. -/
def styleAt (marks : List Mark) (range : Nat × Nat) : Option LabelStyle :=
  let hits := marks.filter fun m => overlap (m.start, m.stop) range
  if hits.any (·.style == .primary) then some .primary
  else if hits.isEmpty then none
  else some .secondary

/-- The mark whose message stands on the line of the marks: the last of those that reach furthest,
unless it overlaps another one. -/
def trailing? (marks : List Mark) : Option (Mark × Nat) :=
  let furthest := (marks.map Mark.stop).foldl max 0
  match (marks.zipIdx.filter fun m => m.1.stop == furthest).getLast? with
  | none => none
  | some (m, i) =>
    if marks.zipIdx.any fun o => o.2 != i && overlap (m.start, m.stop) (o.1.start, o.1.stop) then none
    else some (m, i)

/-- The marks whose messages hang below the line. -/
def hanging (marks : List Mark) : List Mark :=
  let rest :=
    match trailing? marks with
    | none => marks.zipIdx
    | some (_, i) => marks.zipIdx.filter fun m => m.2 != i
  (rest.map Prod.fst).filter (!·.message.isEmpty)

/-- The line of marks below a source line. -/
def caretLine (text : List Char) (marks : List Mark) : String :=
  let furthest := (marks.map Mark.stop).foldl max 0
  let length := Text.byteLength text
  let cells : List Cell := cellsFrom 0 0 text ++ [⟨length, length + 1, 1⟩]
  let carets := cells.flatMap fun c =>
    match styleAt marks (c.start, c.stop) with
    | some .primary => List.replicate c.width '^'
    | some .secondary => List.replicate c.width '-'
    | none => if c.start < furthest then List.replicate c.width ' ' else []
  String.ofList carets ++
    match trailing? marks with
    | none => ""
    | some (m, _) => " " ++ m.message

/-- The bars under the starts of hanging labels, below the given cells. A bar stands even below a
cell that takes no column. -/
def pointers (marks : List Mark) (cells : List Cell) : String :=
  let rightmost := (marks.map Mark.start).foldl max 0
  String.ofList <| cells.flatMap fun c =>
    let blanks (n : Nat) : List Char := if c.start ≤ rightmost then List.replicate n ' ' else []
    if (hanging marks).any fun m => c.start ≤ m.start && m.start < c.stop then
      '│' :: blanks (c.width - 1)
    else blanks c.width

/-- All lines of marks and messages below a source line. -/
def below (text : List Char) (marks : List Mark) : List String :=
  let cells := cellsFrom 0 0 text
  let hung := hanging marks
  caretLine text marks ::
    if hung.isEmpty then []
    else
      pointers marks cells :: hung.reverse.map fun m =>
        pointers marks (cells.takeWhile (·.start < m.start)) ++ m.message

/-! ## §3 The drawing -/

/-- A line number, aligned to the right. -/
def numberText (width n : Nat) : String :=
  let digits := toString n
  String.ofList (List.replicate (width - digits.length) ' ') ++ digits

/-- The lines drawn for one source line. -/
def drawLine (width : Nat) (lines : List SourceLine) (l : MarkedLine) : List String :=
  let text := trimmed ((lines[l.index]?).getD default)
  let gutter := String.ofList (List.replicate width ' ')
  (numberText width (l.index + 1) ++ " │ " ++ String.ofList (shownFrom 0 text)) ::
    if l.marks.isEmpty then []
    else (below text l.marks).map fun s => gutter ++ " │ " ++ s

/-- The lines drawn between two marked lines: a single line in between is shown, and more are left
out. -/
def between (width : Nat) (lines : List SourceLine) (above next : MarkedLine) : List String :=
  match next.index - above.index with
  | 0 => []
  | 1 => []
  | 2 => drawLine width lines ⟨above.index + 1, []⟩
  | _ => [String.ofList (List.replicate width ' ') ++ " ·"]

/-- The lines drawn for all marked lines. -/
def drawLines (width : Nat) (lines : List SourceLine) : List MarkedLine → List String
  | [] => []
  | [l] => drawLine width lines l
  | l :: next :: rest =>
    drawLine width lines l ++ between width lines l next ++ drawLines width lines (next :: rest)

/-- The lines of a text; `current` has the characters of the line at hand, last first. -/
def linesFrom (current : List Char) : List Char → List String
  | [] => if current.isEmpty then [] else [String.ofList current.reverse]
  | '\r' :: '\n' :: cs => String.ofList current.reverse :: linesFrom [] cs
  | '\n' :: cs => String.ofList current.reverse :: linesFrom [] cs
  | c :: cs => linesFrom (c :: current) cs

/-- The lines drawn for a note: a bullet before the first, and the others aligned with it. -/
def drawNote (gutter note : String) : List String :=
  match linesFrom [] note.toList with
  | [] => []
  | first :: rest => (gutter ++ " = " ++ first) :: rest.map (gutter ++ "   " ++ ·)

/-- The width of the gutter: the number of digits of the last line that a label ends on. -/
def gutterWidth (lines : List SourceLine) (labels : List Label) : Nat :=
  (labels.map fun l => (toString (SourceLine.indexOf lines l.stop.toNat + 1)).length).foldl max 0

end Snippet

/-- A diagnostic drawn over its source. -/
def Diagnostic.draw (d : Diagnostic) (file source : String) : String :=
  let lines := SourceLine.ofSource source
  let width := Snippet.gutterWidth lines d.labels
  let gutter := String.ofList (List.replicate width ' ')
  let place :=
    match d.labels.find? (·.style == .primary) with
    | none => []
    | some l =>
      let p := SourceLine.locate lines l.start.toNat
      [gutter ++ " ┌─ " ++ file ++ ":" ++ toString p.line ++ ":" ++ toString p.column,
        gutter ++ " │"]
  let notes :=
    if d.notes.isEmpty then []
    else (gutter ++ " │") :: d.notes.flatMap (Snippet.drawNote gutter)
  let all := ["error[" ++ d.code ++ "]: " ++ d.message] ++ place
    ++ Snippet.drawLines width lines (Snippet.markedLines lines d.labels) ++ notes ++ [""]
  String.join (all.map (· ++ "\n"))

end FieldPromotion
