import FieldPromotion.Text.Hidden

/-!
# Quoting text for a message

A string inside a message stands in double quotes, and what a reader could not see there is
written as an escape.
-/

namespace FieldPromotion.Text

/-- A character inside a quoted string of a message. -/
def shownChar (c : Char) : String :=
  match c with
  | '"' => "\\\""
  | '\\' => "\\\\"
  | '\n' => "\\n"
  | '\r' => "\\r"
  | '\t' => "\\t"
  | '\x00' => "\\0"
  | c =>
    if isHidden c then
      "\\u\x7b" ++ String.ofList (Nat.toDigits 16 c.toNat) ++ "\x7d"
    else
      c.toString

/-- A string as a message quotes it. -/
def shown (s : String) : String :=
  "\"" ++ String.join (s.toList.map shownChar) ++ "\""

end FieldPromotion.Text
