/-!
# Byte offsets into text

Positions in a source text are counted in bytes of its UTF-8 form, while the text itself is a
sequence of characters. The functions here cut a character list at a byte offset, and refuse an
offset that falls inside a character or beyond the end.
-/

namespace FieldPromotion.Text

/-- The number of bytes of a character list in UTF-8. -/
def byteLength (cs : List Char) : Nat :=
  cs.foldr (fun c n => c.utf8Size + n) 0

/-- The characters after the first `n` bytes; `none` when `n` is no character boundary. -/
def dropBytes : Nat → List Char → Option (List Char)
  | 0, cs => some cs
  | _ + 1, [] => none
  | n + 1, c :: cs =>
    if c.utf8Size ≤ n + 1 then dropBytes (n + 1 - c.utf8Size) cs else none

/-- The characters that make up the first `n` bytes; `none` when `n` is no character boundary. -/
def takeBytes : Nat → List Char → Option (List Char)
  | 0, _ => some []
  | _ + 1, [] => none
  | n + 1, c :: cs =>
    if c.utf8Size ≤ n + 1 then (takeBytes (n + 1 - c.utf8Size) cs).map (c :: ·) else none

/-- The text between two byte offsets. The offsets have to be in order, within the text and on
character boundaries. -/
def slice? (start stop : Nat) (text : String) : Option String :=
  if start ≤ stop then
    ((dropBytes start text.toList).bind (takeBytes (stop - start))).map String.ofList
  else
    none

end FieldPromotion.Text
