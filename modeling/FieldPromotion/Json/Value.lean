import FieldPromotion.Decimal.Layout

/-!
# JSON values and their text

A JSON value keeps the order of its object entries, and tells integers from doubles. It is written
either on one line or with one item per line, indented by two spaces a level.

Both layouts are those of the JSON writer that the tools use: an empty array or object stays on its
line, only quotes, backslashes and control characters are escaped, by their short form where there
is one and by four lower case digits otherwise, and a double without a finite value is `null`.
-/

namespace FieldPromotion

/-- A JSON value. -/
inductive Json where
  | null
  | bool (value : Bool)
  | int (value : Int)
  | float (value : Float)
  | str (value : String)
  | arr (items : List Json)
  | obj (entries : List (String × Json))
  deriving Inhabited

namespace Json

/-! ## §1 Convenience -/

/-- An optional value, `null` when it is absent. -/
def ofOption {α : Type} (f : α → Json) : Option α → Json
  | none => .null
  | some a => f a

/-- A list of values. -/
def ofList {α : Type} (f : α → Json) (xs : List α) : Json :=
  .arr (xs.map f)

/-- A natural number. -/
def nat (n : Nat) : Json :=
  .int n

/-! ## §2 Depth -/

mutual

/-- How many arrays and objects are nested in a value. -/
def depth : Json → Nat
  | .arr items => depthItems items + 1
  | .obj entries => depthEntries entries + 1
  | _ => 0

/-- The greatest depth of a list of values. -/
def depthItems : List Json → Nat
  | [] => 0
  | x :: xs => max (depth x) (depthItems xs)

/-- The greatest depth of the values of a list of entries. -/
def depthEntries : List (String × Json) → Nat
  | [] => 0
  | (_, x) :: xs => max (depth x) (depthEntries xs)

end

/-! ## §3 Text -/

/-- A hexadecimal digit. -/
def hexDigit (n : Nat) : Char :=
  if n < 10 then Char.ofNat (48 + n) else Char.ofNat (87 + n)

/-- A character inside a quoted JSON string. -/
def escape (c : Char) : String :=
  match c with
  | '"' => "\\\""
  | '\\' => "\\\\"
  | '\n' => "\\n"
  | '\r' => "\\r"
  | '\t' => "\\t"
  | '\x08' => "\\b"
  | '\x0c' => "\\f"
  | c =>
    if c.toNat < 0x20 then
      "\\u00" ++ String.ofList [hexDigit (c.toNat / 16), hexDigit (c.toNat % 16)]
    else
      c.toString

/-- A string in double quotes. -/
def quote (s : String) : String :=
  "\"" ++ String.join (s.toList.map escape) ++ "\""

/-- The two ways to lay out a value. -/
inductive Style where
  | compact
  | pretty
  deriving DecidableEq, Inhabited

namespace Style

/-- What stands in front of an item at the given depth. -/
def lineBreak (style : Style) (depth : Nat) : String :=
  match style with
  | .compact => ""
  | .pretty => "\n" ++ String.ofList (List.replicate (2 * depth) ' ')

/-- What stands between a key and its value. -/
def colon : Style → String
  | .compact => ":"
  | .pretty => ": "

end Style

mutual

/-- The text of a value that stands `depth` levels deep. -/
def renderAt (style : Style) (depth : Nat) : Json → String
  | .null => "null"
  | .bool b => if b then "true" else "false"
  | .int i => toString i
  | .float x => (Decimal.jsonLayout.text? x).getD "null"
  | .str s => quote s
  | .arr [] => "[]"
  | .arr (x :: xs) =>
    "[" ++ style.lineBreak (depth + 1) ++ renderAt style (depth + 1) x
      ++ renderItems style (depth + 1) xs ++ style.lineBreak depth ++ "]"
  | .obj [] => "\x7b\x7d"
  | .obj ((k, x) :: xs) =>
    "\x7b" ++ style.lineBreak (depth + 1) ++ quote k ++ style.colon
      ++ renderAt style (depth + 1) x ++ renderEntries style (depth + 1) xs
      ++ style.lineBreak depth ++ "\x7d"

/-- The text of the items after the first one. -/
def renderItems (style : Style) (depth : Nat) : List Json → String
  | [] => ""
  | x :: xs =>
    "," ++ style.lineBreak depth ++ renderAt style depth x ++ renderItems style depth xs

/-- The text of the entries after the first one. -/
def renderEntries (style : Style) (depth : Nat) : List (String × Json) → String
  | [] => ""
  | (k, x) :: xs =>
    "," ++ style.lineBreak depth ++ quote k ++ style.colon ++ renderAt style depth x
      ++ renderEntries style depth xs

end

/-- The text of a value. -/
def render (style : Style) (j : Json) : String :=
  renderAt style 0 j

/-- The text of a value on one line. -/
def compact (j : Json) : String :=
  j.render .compact

/-- The text of a value with one item per line. -/
def pretty (j : Json) : String :=
  j.render .pretty

end Json

end FieldPromotion
