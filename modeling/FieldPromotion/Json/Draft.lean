import FieldPromotion.Decimal.Numeral
import FieldPromotion.Text.Bytes

/-!
# JSON drafts

Reading goes from left to right and stops at the first thing that is wrong, but what counts as
wrong depends on what the reader is looking for. `Draft.scan` therefore turns a text into a draft:
the value as far as it is well formed, with the first flaw recorded at the place where it was met.
A decoder then walks the draft in text order, so a mismatch that stands before a flaw is reported
first, and a flaw that stands before a mismatch is reported instead.

A value that is merely skipped is held to fewer rules than one that is read, so strings and numbers
record the outcome of both.

The tree format says nothing about JSON itself. It is handed to a general JSON reader that comes
from outside, and a text is good or bad by the rules of that reader. The ones stated here are:

* blanks are the space, the tab, the line feed and the carriage return, and nothing else;
* a number has no leading zeros, and digits on both sides of its point; without point and exponent
  it is an integer if it fits into 64 bits, signed or unsigned, and a double otherwise; `-0` is a
  double; a number that is too large for a double cannot be read, but can be skipped;
* a string has no bare control characters; a pair of `\u` escapes stands for one character beyond
  the first 65536, and half a pair cannot be read, but can be skipped;
* there is no comma after the last item, and no comment;
* a text that stops too early is told apart from one with a wrong character in it.
-/

namespace FieldPromotion.Json

/-! ## §1 Drafts -/

/-- What can be wrong with a text: some character cannot stand where it does, or the text ends too
early. -/
inductive Flaw where
  | malformed
  | unfinished
  deriving DecidableEq, Inhabited

/-- What a reader met in place of what it expected. -/
inductive Found where
  | null
  | bool (value : Bool)
  | int (value : Int)
  | float (value : Float)
  | string (value : String)
  | sequence
  | map
  | unitVariant
  deriving Inhabited

/-- A quoted string: its decoded text, or the first flaw met when decoding it; and the flaw that
stops even a reader who skips it. -/
structure Quoted where
  text : Except Flaw String
  stop : Option Flaw := none
  deriving Inhabited

/-- How the items of an array or the entries of an object end: with the closing bracket, or by a flaw,
as met when reading and when skipping. `afterComma` says whether a comma was the last thing
before. -/
inductive Ending where
  | closed
  | cut (afterComma : Bool) (reading skipping : Flaw)
  deriving Inhabited

/-- A value as far as it could be read. -/
inductive Draft where
  /-- No value starts here. -/
  | broken (flaw : Flaw)
  | null
  | bool (value : Bool)
  /-- A misspelt or cut off `null`. -/
  | brokenNull (flaw : Flaw)
  /-- A misspelt or cut off `true` or `false`. -/
  | brokenBool (flaw : Flaw)
  /-- A number; `complete` says whether its spelling is right, even if its value is out of range. -/
  | number (value : Except Flaw Number) (complete : Bool)
  | string (value : Quoted)
  | array (items : List Draft) (ending : Ending)
  | object (entries : List (Quoted × Draft)) (ending : Ending)
  deriving Inhabited

/-! ## §2 Blanks, words and numbers -/

/-- The blanks of JSON. -/
def isBlank (c : Char) : Bool :=
  c == ' ' || c == '\t' || c == '\n' || c == '\r'

/-- The text after leading blanks. -/
def skipBlanks : List Char → List Char
  | [] => []
  | c :: cs => if isBlank c then skipBlanks cs else c :: cs

/-- Matches the letters of a word; the flaw is the first letter that differs. -/
def spelled : List Char → List Char → Except Flaw (List Char)
  | [], cs => .ok cs
  | _ :: _, [] => .error .unfinished
  | w :: ws, c :: cs => if w = c then spelled ws cs else .error .malformed

/-- The flaw of a text that stops where something is missing. -/
def flawAt : List Char → Flaw
  | [] => .unfinished
  | _ :: _ => .malformed

/-- The leading decimal digits of a text. -/
def digits (cs : List Char) : List Nat × List Char :=
  ((cs.takeWhile Char.isDigit).map fun c => c.toNat - 48, cs.dropWhile Char.isDigit)

/-- The exponent of a numeral, if there is one. -/
def scanExponent (cs : List Char) : Except Flaw (Option (Bool × List Nat) × List Char) :=
  let start (down : Bool) (cs : List Char) : Except Flaw (Option (Bool × List Nat) × List Char) :=
    match digits cs with
    | ([], rest) => .error (flawAt rest)
    | (ds, rest) => .ok (some (down, ds), rest)
  let mark (cs : List Char) : Except Flaw (Option (Bool × List Nat) × List Char) :=
    match cs with
    | '+' :: cs => start false cs
    | '-' :: cs => start true cs
    | cs => start false cs
  match cs with
  | 'e' :: cs => mark cs
  | 'E' :: cs => mark cs
  | cs => .ok (none, cs)

/-- The fraction of a numeral, if there is one. -/
def scanFraction (cs : List Char) : Except Flaw (Option (List Nat) × List Char) :=
  match cs with
  | '.' :: cs =>
    match digits cs with
    | ([], rest) => .error (flawAt rest)
    | (ds, rest) => .ok (some ds, rest)
  | cs => .ok (none, cs)

/-- A numeral. A leading zero may not be followed by another digit. -/
def scanNumeral (negative : Bool) (cs : List Char) : Except Flaw (Numeral × List Char) := do
  let (whole, cs) := digits cs
  match whole with
  | [] => .error (flawAt cs)
  | 0 :: _ :: _ => .error .malformed
  | whole =>
    let (fraction, cs) ← scanFraction cs
    let (exponent, cs) ← scanExponent cs
    pure ({ negative, whole, fraction := fraction.getD [], exponent,
            hasPoint := fraction.isSome }, cs)

/-- The draft of a number. A number out of range is well spelt, but cannot be read. -/
def scanNumber (negative : Bool) (cs : List Char) : Draft × Option (List Char) :=
  match scanNumeral negative cs with
  | .error flaw => (.number (.error flaw) false, none)
  | .ok (numeral, rest) =>
    match numeral.value? with
    | some value => (.number (.ok value) true, some rest)
    | none => (.number (.error .malformed) true, some rest)

/-! ## §3 Strings -/

/-- The value of a hexadecimal digit. -/
def hexValue? (c : Char) : Option Nat :=
  if '0' ≤ c ∧ c ≤ '9' then some (c.toNat - 48)
  else if 'a' ≤ c ∧ c ≤ 'f' then some (c.toNat - 87)
  else if 'A' ≤ c ∧ c ≤ 'F' then some (c.toNat - 55)
  else none

/-- The value of four hexadecimal digits. -/
def hexValue4? (a b c d : Char) : Option Nat := do
  let a ← hexValue? a
  let b ← hexValue? b
  let c ← hexValue? c
  let d ← hexValue? d
  return ((a * 16 + b) * 16 + c) * 16 + d

/-- What a backslash followed by this character stands for. -/
def simpleEscape? : Char → Option Char
  | '"' => some '"'
  | '\\' => some '\\'
  | '/' => some '/'
  | 'b' => some '\x08'
  | 'f' => some '\x0c'
  | 'n' => some '\n'
  | 'r' => some '\r'
  | 't' => some '\t'
  | _ => none

/-- A string being read: its characters so far, last first; the first flaw that only matters to a
reader who needs the text; and the first half of a pair of `\u` escapes that make one character. -/
structure StringState where
  chars : List Char := []
  flaw : Option Flaw := none
  lead : Option Nat := none

namespace StringState

/-- Notes a flaw, unless an earlier one is known. -/
def spoil (s : StringState) (flaw : Flaw) : StringState :=
  { s with flaw := some (s.flaw.getD flaw), lead := none }

/-- A pair of escapes that is not completed is a flaw. -/
def settle (s : StringState) : StringState :=
  if s.lead.isSome then s.spoil .malformed else s

/-- Adds a character. -/
def push (s : StringState) (c : Char) : StringState :=
  let s := s.settle
  { s with chars := c :: s.chars }

/-- Adds a sixteen bit unit given by an escape. -/
def unit (s : StringState) (n : Nat) : StringState :=
  if 0xdc00 ≤ n ∧ n ≤ 0xdfff then
    match s.lead with
    | some lead =>
      { s with
        chars := Char.ofNat ((lead - 0xd800) * 1024 + (n - 0xdc00) + 0x10000) :: s.chars
        lead := none }
    | none => s.spoil .malformed
  else if 0xd800 ≤ n ∧ n ≤ 0xdbff then
    { s.settle with lead := some n }
  else
    s.push (Char.ofNat n)

/-- The string, ended by its closing quote. -/
def finish (s : StringState) : Quoted :=
  let s := s.settle
  match s.flaw with
  | some flaw => { text := .error flaw }
  | none => { text := .ok (String.ofList s.chars.reverse) }

/-- The string, ended by a flaw. -/
def abort (s : StringState) (flaw : Flaw) : Quoted :=
  { text := .error (s.flaw.getD flaw), stop := some flaw }

end StringState

/-- The string whose opening quote has just been read. -/
def scanString (s : StringState) : List Char → Quoted × List Char
  | [] => (s.abort .unfinished, [])
  | '"' :: rest => (s.finish, rest)
  | ['\\'] => (s.abort .unfinished, [])
  | '\\' :: 'u' :: a :: b :: c :: d :: rest =>
    match hexValue4? a b c d with
    | some n => scanString (s.unit n) rest
    | none => (s.abort .malformed, [])
  | '\\' :: 'u' :: rest =>
    if Text.byteLength rest < 4 then (s.abort .unfinished, []) else (s.abort .malformed, [])
  | '\\' :: e :: rest =>
    match simpleEscape? e with
    | some c => scanString (s.push c) rest
    | none => (s.settle.abort .malformed, [])
  | c :: rest =>
    if c.toNat < 0x20 then (s.settle.abort .malformed, []) else scanString (s.push c) rest

/-! ## §4 Values -/

/-- What the draft of a value is, as far as a message about it goes. -/
def Draft.found : Draft → Except Flaw Found
  | .broken flaw => .error flaw
  | .null => .ok .null
  | .bool b => .ok (.bool b)
  | .brokenNull flaw => .error flaw
  | .brokenBool flaw => .error flaw
  | .number (.ok (.int i)) _ => .ok (.int i)
  | .number (.ok (.float x)) _ => .ok (.float x)
  | .number (.error flaw) _ => .error flaw
  | .string q => q.text.map .string
  | .array _ _ => .ok .sequence
  | .object _ _ => .ok .map

/-- A value that is neither array nor object. -/
def scanScalar : List Char → Draft × Option (List Char)
  | [] => (.broken .unfinished, none)
  | 'n' :: cs =>
    match spelled ['u', 'l', 'l'] cs with
    | .ok rest => (.null, some rest)
    | .error flaw => (.brokenNull flaw, none)
  | 't' :: cs =>
    match spelled ['r', 'u', 'e'] cs with
    | .ok rest => (.bool true, some rest)
    | .error flaw => (.brokenBool flaw, none)
  | 'f' :: cs =>
    match spelled ['a', 'l', 's', 'e'] cs with
    | .ok rest => (.bool false, some rest)
    | .error flaw => (.brokenBool flaw, none)
  | '"' :: cs =>
    match scanString {} cs with
    | (q, rest) => (.string q, if q.stop.isSome then none else some rest)
  | '-' :: cs => scanNumber true cs
  | c :: cs => if c.isDigit then scanNumber false (c :: cs) else (.broken .malformed, none)

mutual

/-- Reads one value. The second part is the text after it, or `none` when a flaw stopped the
reading. -/
def scanValue : Nat → List Char → Draft × Option (List Char)
  | 0, _ => (.broken .unfinished, none)
  | fuel + 1, cs =>
    match skipBlanks cs with
    | '[' :: cs =>
      match skipBlanks cs with
      | [] => (.array [] (.cut false .unfinished .unfinished), none)
      | ']' :: rest => (.array [] .closed, some rest)
      | cs =>
        match scanItems fuel cs with
        | (items, ending, rest) => (.array items ending, rest)
    | '\x7b' :: cs =>
      match skipBlanks cs with
      | '\x7d' :: rest => (.object [] .closed, some rest)
      | cs =>
        match scanEntries fuel false cs with
        | (entries, ending, rest) => (.object entries ending, rest)
    | cs => scanScalar cs

/-- Reads the items of an array from one on that has to be there. -/
def scanItems : Nat → List Char → List Draft × Ending × Option (List Char)
  | 0, _ => ([], .cut false .unfinished .unfinished, none)
  | fuel + 1, cs =>
    match scanValue fuel cs with
    | (item, none) => ([item], .cut false .malformed .malformed, none)
    | (item, some cs) =>
      match skipBlanks cs with
      | [] => ([item], .cut false .unfinished .unfinished, none)
      | ']' :: rest => ([item], .closed, some rest)
      | ',' :: cs =>
        match skipBlanks cs with
        | [] => ([item], .cut true .unfinished .unfinished, none)
        | ']' :: _ => ([item], .cut true .malformed .malformed, none)
        | cs =>
          match scanItems fuel cs with
          | (items, ending, rest) => (item :: items, ending, rest)
      | _ :: _ => ([item], .cut false .malformed .malformed, none)

/-- Reads the entries of an object from one on that has to be there. -/
def scanEntries : Nat → Bool → List Char → List (Quoted × Draft) × Ending × Option (List Char)
  | 0, afterComma, _ => ([], .cut afterComma .unfinished .unfinished, none)
  | fuel + 1, afterComma, cs =>
    match skipBlanks cs with
    | [] => ([], .cut afterComma .unfinished .unfinished, none)
    | '"' :: cs =>
      match scanString {} cs with
      | (⟨.error reading, some skipping⟩, _) => ([], .cut afterComma reading skipping, none)
      | (⟨.ok _, some skipping⟩, _) => ([], .cut afterComma skipping skipping, none)
      | (key, cs) =>
        match skipBlanks cs with
        | [] => ([(key, .broken .unfinished)], .cut false .unfinished .unfinished, none)
        | ':' :: cs =>
          match scanValue fuel cs with
          | (value, none) => ([(key, value)], .cut false .malformed .malformed, none)
          | (value, some cs) =>
            match skipBlanks cs with
            | [] => ([(key, value)], .cut false .unfinished .unfinished, none)
            | '\x7d' :: rest => ([(key, value)], .closed, some rest)
            | ',' :: cs =>
              match scanEntries fuel true cs with
              | (entries, ending, rest) => ((key, value) :: entries, ending, rest)
            | _ :: _ => ([(key, value)], .cut false .malformed .malformed, none)
        | _ :: _ => ([(key, .broken .malformed)], .cut false .malformed .malformed, none)
    | _ :: _ => ([], .cut afterComma .malformed .malformed, none)

end

/-- The draft of the value at the start of a text, and the text after it. -/
def Draft.scan (cs : List Char) : Draft × Option (List Char) :=
  scanValue (2 * cs.length + 2) cs

/-! ## §5 Skipping -/

/-- The flaw that stops a reader who skips to the end of an array or object. -/
def Ending.skip : Ending → Except Flaw Unit
  | .closed => .ok ()
  | .cut _ _ skipping => .error skipping

/-- A skipped number has to be well spelt, a skipped string has to end. -/
def Quoted.skip (q : Quoted) : Except Flaw Unit :=
  match q.stop with
  | some flaw => .error flaw
  | none => .ok ()

mutual

/-- Skips a value, which only has to be well formed. -/
def Draft.skip : Draft → Except Flaw Unit
  | .broken flaw => .error flaw
  | .null => .ok ()
  | .bool _ => .ok ()
  | .brokenNull flaw => .error flaw
  | .brokenBool flaw => .error flaw
  | .number _ complete => if complete then .ok () else .error .malformed
  | .string q => q.skip
  | .array items ending => skipItems ending items
  | .object entries ending => skipEntries ending entries

/-- Skips the items of an array. -/
def skipItems (ending : Ending) : List Draft → Except Flaw Unit
  | [] => ending.skip
  | x :: xs =>
    match x.skip with
    | .error flaw => .error flaw
    | .ok () => skipItems ending xs

/-- Skips the entries of an object. -/
def skipEntries (ending : Ending) : List (Quoted × Draft) → Except Flaw Unit
  | [] => ending.skip
  | (_, x) :: xs =>
    match x.skip with
    | .error flaw => .error flaw
    | .ok () => skipEntries ending xs

end

end FieldPromotion.Json
