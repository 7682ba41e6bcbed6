import FieldPromotion.Text.Bytes

/-!
# Lines and columns

A source is a list of lines, each with the byte offset it starts at. A byte offset belongs to the
last line that starts at or before it, and its column counts the characters of that line that end
at or before it. Lines and columns count from one.
-/

namespace FieldPromotion

/-- A line of a source: the offset of its first byte and its characters, with the line feed. -/
structure SourceLine where
  start : Nat
  chars : List Char
  deriving DecidableEq, Inhabited

/-- A line and a column. -/
structure Position where
  line : Nat
  column : Nat
  deriving DecidableEq, Inhabited

namespace SourceLine

/-- Splits a text into lines. `current` has the characters of the line at hand, last first. -/
def split (start : Nat) (current : List Char) : List Char → List SourceLine
  | [] => [⟨start, current.reverse⟩]
  | '\n' :: cs =>
    let chars := ('\n' :: current).reverse
    ⟨start, chars⟩ :: split (start + Text.byteLength chars) [] cs
  | c :: cs => split start (c :: current) cs

/-- The lines of a source. A source that ends with a line feed has an empty last line. -/
def ofSource (source : String) : List SourceLine :=
  split 0 [] source.toList

/-- The number of characters that end within the first `n` bytes. -/
def charsWithin : Nat → List Char → Nat
  | _, [] => 0
  | n, c :: cs => if c.utf8Size ≤ n then charsWithin (n - c.utf8Size) cs + 1 else 0

/-- The column of a byte offset on a line. -/
def column (l : SourceLine) (offset : Nat) : Nat :=
  charsWithin (offset - l.start) l.chars + 1

/-- The index of the line that an offset belongs to. -/
def indexOf (lines : List SourceLine) (offset : Nat) : Nat :=
  (lines.takeWhile (·.start ≤ offset)).length - 1

/-- The line and column of a byte offset. -/
def locate (lines : List SourceLine) (offset : Nat) : Position :=
  let i := indexOf lines offset
  { line := i + 1, column := ((lines[i]?).map (·.column offset)).getD 1 }

end SourceLine

end FieldPromotion
