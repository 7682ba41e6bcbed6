import FieldPromotion.Text.Bytes

/-!
# Source spans

A span is a half-open byte range of a source text, together with the line and column at which it
starts. Nothing forces the range to be in order: a span whose end lies before its start has length
zero, yet is not empty.
-/

namespace FieldPromotion

/-- A byte range of a source text with the line and column of its first byte. -/
structure Span where
  start : UInt64 := 0
  stop : UInt64 := 0
  line : UInt32 := 0
  column : UInt32 := 0
  deriving DecidableEq, Inhabited

namespace Span

/-- The number of bytes covered, zero for an inverted span. -/
def length (s : Span) : UInt64 :=
  if s.start ≤ s.stop then s.stop - s.start else 0

/-- A span is empty when it starts where it ends. -/
def isEmpty (s : Span) : Bool :=
  s.start == s.stop

/-- The least span around two spans. Line and column are the smaller ones, each taken alone. -/
def merge (a b : Span) : Span where
  start := min a.start b.start
  stop := max a.stop b.stop
  line := min a.line b.line
  column := min a.column b.column

/-- The part of `source` that the span covers, if it covers whole characters of it. -/
def slice? (s : Span) (source : String) : Option String :=
  Text.slice? s.start.toNat s.stop.toNat source

end Span

/-- A name as written at some place of the source. -/
structure Ident where
  name : String
  span : Span := {}
  deriving DecidableEq, Inhabited

end FieldPromotion
