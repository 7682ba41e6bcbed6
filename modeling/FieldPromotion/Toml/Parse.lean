import FieldPromotion.Toml.Value

/-!
# Reading TOML

The lines of a document are read one after the other: blank lines and comments, headers in single
or double brackets, and keys with their values. Every function takes the text that is left, and
returns what it found with the text after it, or nothing if the text is not of its form.
-/

namespace FieldPromotion.Toml

/-! ## §1 Blanks and comments -/

/-- The text after spaces and tabs. -/
def skipSpaces : List Char → List Char
  | [] => []
  | c :: cs => if c == ' ' || c == '\t' then skipSpaces cs else c :: cs

/-- The text after a line end. -/
def lineEnd? : List Char → Option (List Char)
  | '\n' :: cs => some cs
  | '\r' :: '\n' :: cs => some cs
  | _ => none

/-- The characters that comments and literal strings may have. -/
def isPlain (c : Char) : Bool :=
  c == '\t' || (0x20 ≤ c.toNat && c.toNat ≠ 0x7f)

/-- The text after an optional comment. -/
def skipComment : List Char → List Char
  | '#' :: cs => cs.dropWhile isPlain
  | cs => cs

/-- The text after blanks, line ends and comments. -/
def skipLines : Nat → List Char → List Char
  | 0, cs => cs
  | fuel + 1, cs =>
    let cs := skipSpaces cs
    match cs with
    | '#' :: _ => skipLines fuel (skipComment cs)
    | _ =>
      match lineEnd? cs with
      | some rest => skipLines fuel rest
      | none => cs

/-- The text after the rest of a line that has nothing more to say. -/
def finishLine? (cs : List Char) : Option (List Char) :=
  match skipComment (skipSpaces cs) with
  | [] => some []
  | cs => lineEnd? cs

/-! ## §2 Strings -/

private def hexDigit? (c : Char) : Option Nat :=
  if c.isDigit then some (c.toNat - 48)
  else if 'a' ≤ c ∧ c ≤ 'f' then some (c.toNat - 87)
  else if 'A' ≤ c ∧ c ≤ 'F' then some (c.toNat - 55)
  else none

/-- A character given by its code point in hexadecimal digits. -/
def codePoint? (digits : List Char) : Option Char := do
  let n ← digits.foldlM (fun n c => (hexDigit? c).map (n * 16 + ·)) 0
  if n.isValidChar then some (Char.ofNat n) else none

/-- The escapes of a basic string, after the backslash. -/
def escape? : List Char → Option (Char × List Char)
  | 'b' :: cs => some ('\x08', cs)
  | 't' :: cs => some ('\t', cs)
  | 'n' :: cs => some ('\n', cs)
  | 'f' :: cs => some ('\x0c', cs)
  | 'r' :: cs => some ('\r', cs)
  | '"' :: cs => some ('"', cs)
  | '\\' :: cs => some ('\\', cs)
  | 'u' :: cs =>
    if cs.length < 4 then none else (codePoint? (cs.take 4)).map fun c => (c, cs.drop 4)
  | 'U' :: cs =>
    if cs.length < 8 then none else (codePoint? (cs.take 8)).map fun c => (c, cs.drop 8)
  | _ => none

/-- A string in double quotes, after the opening quote. -/
def basicString? : Nat → List Char → List Char → Option (String × List Char)
  | 0, _, _ => none
  | _ + 1, _, [] => none
  | _ + 1, acc, '"' :: cs => some (String.ofList acc.reverse, cs)
  | fuel + 1, acc, '\\' :: cs => do
    let (c, cs) ← escape? cs
    basicString? fuel (c :: acc) cs
  | fuel + 1, acc, c :: cs => if isPlain c then basicString? fuel (c :: acc) cs else none

/-- A string in single quotes, after the opening quote. -/
def literalString? (cs : List Char) : Option (String × List Char) :=
  let inside := cs.takeWhile fun c => isPlain c && c != '\''
  match cs.drop inside.length with
  | '\'' :: rest => some (String.ofList inside, rest)
  | _ => none

/-- The text after the first line end of a string that spans lines. -/
def dropFirstLineEnd (cs : List Char) : List Char :=
  (lineEnd? cs).getD cs

/-- How many of the given quotes a text starts with, at most five. -/
def quoteRun (quote : Char) (cs : List Char) : Nat :=
  ((cs.take 5).takeWhile (· == quote)).length

/-- The text after a backslash that ends a line, if it does: all blanks and line ends go with it. -/
def continued? (fuel : Nat) (cs : List Char) : Option (List Char) :=
  match lineEnd? (skipSpaces cs) with
  | none => none
  | some rest =>
    let rec skip : Nat → List Char → List Char
      | 0, cs => cs
      | fuel + 1, cs =>
        let cs := skipSpaces cs
        match lineEnd? cs with
        | some rest => skip fuel rest
        | none => cs
    some (skip fuel rest)

/-- A string that spans lines, after the three opening quotes. Three quotes end it, and one or two
more in front of them belong to it; `escapes` says whether backslashes are special. -/
def longString? (quote : Char) (escapes : Bool) :
    Nat → List Char → List Char → Option (String × List Char)
  | 0, _, _ => none
  | _ + 1, _, [] => none
  | fuel + 1, acc, c :: cs =>
    if c == quote then
      let run := quoteRun quote (c :: cs)
      if 3 ≤ run then
        some (String.ofList (List.replicate (run - 3) quote ++ acc).reverse, (c :: cs).drop run)
      else
        longString? quote escapes fuel (c :: acc) cs
    else if escapes && c == '\\' then
      match continued? fuel cs with
      | some rest => longString? quote escapes fuel acc rest
      | none =>
        match escape? cs with
        | some (e, rest) => longString? quote escapes fuel (e :: acc) rest
        | none => none
    else
      match lineEnd? (c :: cs) with
      | some rest => longString? quote escapes fuel ('\n' :: acc) rest
      | none => if isPlain c then longString? quote escapes fuel (c :: acc) cs else none

/-- A string of any form. -/
def string? (fuel : Nat) : List Char → Option (String × List Char)
  | '"' :: '"' :: '"' :: cs => longString? '"' true fuel [] (dropFirstLineEnd cs)
  | '\'' :: '\'' :: '\'' :: cs => longString? '\'' false fuel [] (dropFirstLineEnd cs)
  | '"' :: cs => basicString? fuel [] cs
  | '\'' :: cs => literalString? cs
  | _ => none

/-! ## §3 Keys -/

/-- How deep values may be nested, and how long dotted keys may be. -/
def depthLimit : Nat := 80

def isBareKeyChar (c : Char) : Bool :=
  c.isAlphanum || c == '_' || c == '-'

/-- One part of a dotted key. -/
def simpleKey? (fuel : Nat) : List Char → Option (String × List Char)
  | '"' :: cs => basicString? fuel [] cs
  | '\'' :: cs => literalString? cs
  | cs =>
    let key := cs.takeWhile isBareKeyChar
    if key.isEmpty then none else some (String.ofList key, cs.drop key.length)

/-- A dotted key: the parts before the last dot, and the last part. -/
def dottedKey? : Nat → List String → List Char → Option (List String × String × List Char)
  | 0, _, _ => none
  | fuel + 1, path, cs => do
    let (key, cs) ← simpleKey? fuel (skipSpaces cs)
    match skipSpaces cs with
    | '.' :: cs => dottedKey? fuel (path ++ [key]) cs
    | cs => if path.length + 1 < depthLimit then some (path, key, cs) else none

/-! ## §4 Numbers and dates -/

/-- Digits with single underscores between them. -/
def digitRun (isDigit : Char → Bool) : List Char → Option (List Char)
  | [] => none
  | [c] => if isDigit c then some [c] else none
  | c :: '_' :: cs => if isDigit c then (digitRun isDigit cs).map (c :: ·) else none
  | c :: cs => if isDigit c then (digitRun isDigit cs).map (c :: ·) else none

private def natOf (base : Nat) (digits : List Char) : Nat :=
  digits.foldl (fun n c => n * base + (hexDigit? c).getD 0) 0

/-- The digits of a decimal integer, without leading zeros. -/
def decimal? (cs : List Char) : Option (List Char) :=
  match digitRun Char.isDigit cs with
  | some ('0' :: _ :: _) => none
  | other => other

/-- An integer has to fit 64 bits. -/
def inRange (i : Int) : Option Value :=
  if -9223372036854775808 ≤ i ∧ i ≤ 9223372036854775807 then some (.int i) else none

private def splitSign : List Char → Bool × List Char
  | '-' :: cs => (true, cs)
  | '+' :: cs => (false, cs)
  | cs => (false, cs)

/-- An integer. -/
def integer? (cs : List Char) : Option Value :=
  let isOctal (c : Char) : Bool := '0' ≤ c && c ≤ '7'
  match cs with
  | '0' :: 'x' :: ds =>
    (digitRun (fun c => (hexDigit? c).isSome) ds).bind fun ds => inRange (natOf 16 ds)
  | '0' :: 'o' :: ds => (digitRun isOctal ds).bind fun ds => inRange (natOf 8 ds)
  | '0' :: 'b' :: ds =>
    (digitRun (fun c => c == '0' || c == '1') ds).bind fun ds => inRange (natOf 2 ds)
  | cs =>
    let (negative, ds) := splitSign cs
    (decimal? ds).bind fun ds =>
      let n : Int := natOf 10 ds
      inRange (if negative then -n else n)

/-- A number with a fraction or an exponent, or one of the special numbers. A positive number may
not be too large for a double. -/
def float? (cs : List Char) : Option Value :=
  let (negative, body) := splitSign cs
  if body == ['i', 'n', 'f'] || body == ['n', 'a', 'n'] then some .float
  else
    let isMark (c : Char) : Bool := c == 'e' || c == 'E'
    let mantissa := body.takeWhile fun c => !isMark c
    let exponent := body.drop mantissa.length
    let whole := mantissa.takeWhile (· != '.')
    let fraction := mantissa.drop whole.length
    let tail := (splitSign (exponent.drop 1)).2
    match decimal? whole with
    | none => none
    | some whole =>
      let fractionDigits :=
        if fraction.isEmpty then some [] else digitRun Char.isDigit (fraction.drop 1)
      let exponentDigits := if exponent.isEmpty then some [] else digitRun Char.isDigit tail
      match fractionDigits, exponentDigits with
      | some fd, some ed =>
        if fraction.isEmpty && exponent.isEmpty then none
        else
          let down := (splitSign (exponent.drop 1)).1
          let e : Int := (if down then -(natOf 10 ed : Int) else natOf 10 ed) - fd.length
          let n := natOf 10 (whole ++ fd)
          let x :=
            if n = 0 then 0.0
            else if e < 0 then Float.ofScientific n true (min e.natAbs 100000)
            else Float.ofScientific n false (min e.toNat 1000)
          if x.isInf && !negative then none else some .float
      | _, _ => none

private def number? (width : Nat) (cs : List Char) : Option (Nat × List Char) :=
  let ds := cs.take width
  if ds.length = width && ds.all Char.isDigit then some (natOf 10 ds, cs.drop width) else none

private def expect? (c : Char) : List Char → Option (List Char)
  | [] => none
  | d :: cs => if c = d then some cs else none

/-- The number of days of a month. -/
def daysIn (year month : Nat) : Nat :=
  if month = 2 then
    if year % 4 = 0 ∧ (year % 100 ≠ 0 ∨ year % 400 = 0) then 29 else 28
  else if month = 4 ∨ month = 6 ∨ month = 9 ∨ month = 11 then 30
  else 31

/-- A date. -/
def date? (cs : List Char) : Option (List Char) := do
  let (year, cs) ← number? 4 cs
  let cs ← expect? '-' cs
  let (month, cs) ← number? 2 cs
  let cs ← expect? '-' cs
  let (day, cs) ← number? 2 cs
  if 1 ≤ month ∧ month ≤ 12 ∧ 1 ≤ day ∧ day ≤ daysIn year month then some cs else none

/-- A time of day. -/
def time? (cs : List Char) : Option (List Char) := do
  let (hour, cs) ← number? 2 cs
  let cs ← expect? ':' cs
  let (minute, cs) ← number? 2 cs
  let cs ← expect? ':' cs
  let (second, cs) ← number? 2 cs
  if hour ≤ 23 ∧ minute ≤ 59 ∧ second ≤ 60 then
    match cs with
    | '.' :: rest =>
      let ds := rest.takeWhile Char.isDigit
      if ds.isEmpty then none else some (rest.drop ds.length)
    | cs => some cs
  else none

/-- An optional distance from universal time. -/
def offset (cs : List Char) : List Char :=
  let signed (rest : List Char) : Option (List Char) := do
    let (hour, rest) ← number? 2 rest
    let rest ← expect? ':' rest
    let (minute, rest) ← number? 2 rest
    if hour ≤ 23 ∧ minute ≤ 59 then some rest else none
  match cs with
  | 'Z' :: rest => rest
  | 'z' :: rest => rest
  | '+' :: rest => (signed rest).getD cs
  | '-' :: rest => (signed rest).getD cs
  | cs => cs

/-- A date, a time, or both. -/
def dateTime? (cs : List Char) : Option (List Char) :=
  match date? cs with
  | some rest =>
    let afterDate (more : List Char) : List Char :=
      match time? more with
      | some rest => offset rest
      | none => rest
    match rest with
    | 'T' :: more => some (afterDate more)
    | 't' :: more => some (afterDate more)
    | ' ' :: more => some (afterDate more)
    | rest => some rest
  | none => time? cs

/-- The characters of numbers. -/
def isNumberChar (c : Char) : Bool :=
  c.isAlphanum || c == '_' || c == '+' || c == '-' || c == '.'

/-- A number or a date. -/
def numberOrDate? (cs : List Char) : Option (Value × List Char) :=
  match dateTime? cs with
  | some rest => some (.dateTime, rest)
  | none =>
    let token := cs.takeWhile isNumberChar
    let rest := cs.drop token.length
    match float? token with
    | some v => some (v, rest)
    | none => (integer? token).map fun v => (v, rest)

/-! ## §5 Values -/

private def word? (word : List Char) (cs : List Char) : Option (List Char) :=
  if cs.take word.length = word then some (cs.drop word.length) else none

mutual

/-- A value; `depth` counts the arrays and tables around it. -/
def value? : Nat → Nat → List Char → Option (Value × List Char)
  | 0, _, _ => none
  | fuel + 1, depth, cs =>
    match cs with
    | [] => none
    | '[' :: rest =>
      if depthLimit ≤ depth + 1 then none
      else (arrayItems? fuel (depth + 1) rest).map fun r => (.array r.1, r.2)
    | '\x7b' :: rest =>
      if depthLimit ≤ depth + 1 then none
      else
        match skipSpaces rest with
        | '\x7d' :: rest => some (.table .inline [], rest)
        | rest => (inlineEntries? fuel (depth + 1) [] rest).map fun r => (.table .inline r.1, r.2)
    | c :: _ =>
      if c == '"' || c == '\'' then (string? (cs.length + 1) cs).map fun r => (.string r.1, r.2)
      else if c == 't' then (word? ['t', 'r', 'u', 'e'] cs).map fun r => (.bool true, r)
      else if c == 'f' then (word? ['f', 'a', 'l', 's', 'e'] cs).map fun r => (.bool false, r)
      else if c == 'i' then (word? ['i', 'n', 'f'] cs).map fun r => (.float, r)
      else if c == 'n' then (word? ['n', 'a', 'n'] cs).map fun r => (.float, r)
      else if c == '+' || c == '-' || c.isDigit then numberOrDate? cs
      else none

/-- The items of an array up to its closing bracket; a comma may follow the last one. -/
def arrayItems? : Nat → Nat → List Char → Option (List Value × List Char)
  | 0, _, _ => none
  | fuel + 1, depth, cs =>
    match skipLines (cs.length + 1) cs with
    | ']' :: rest => some ([], rest)
    | cs => do
      let (v, cs) ← value? fuel depth cs
      match skipLines (cs.length + 1) cs with
      | ']' :: rest => some ([v], rest)
      | ',' :: cs => (arrayItems? fuel depth cs).map fun r => (v :: r.1, r.2)
      | _ => none

/-- The entries of a table in braces, from one on that has to be there, up to the closing brace. -/
def inlineEntries? : Nat → Nat → Entries → List Char → Option (Entries × List Char)
  | 0, _, _, _ => none
  | fuel + 1, depth, es, cs => do
    let (path, key, cs) ← dottedKey? (cs.length + 1) [] cs
    match cs with
    | '=' :: cs =>
      let (v, cs) ← value? fuel depth (skipSpaces cs)
      let es ← assign .inline path key v es
      match skipSpaces cs with
      | '\x7d' :: rest => some (es, rest)
      | ',' :: cs => inlineEntries? fuel depth es cs
      | _ => none
    | _ => none

end

/-! ## §6 Documents -/

/-- A document being read: the header that was opened last, and the entries so far. -/
structure Document where
  header : List String := []
  entries : Entries := []

/-- A line with a key and a value. -/
def entryLine? (doc : Document) (cs : List Char) : Option (Document × List Char) := do
  let fuel := cs.length + 1
  let (path, key, cs) ← dottedKey? fuel [] cs
  match cs with
  | '=' :: cs =>
    let (v, cs) ← value? (2 * fuel) 0 (skipSpaces cs)
    let es ← assignUnder doc.header path key v doc.entries
    some ({ doc with entries := es }, cs)
  | _ => none

/-- A line with a header. -/
def headerLine? (doc : Document) (cs : List Char) : Option (Document × List Char) := do
  let fuel := cs.length + 1
  match cs with
  | '[' :: '[' :: cs =>
    let (path, key, cs) ← dottedKey? fuel [] cs
    match cs with
    | ']' :: ']' :: cs =>
      some ({ header := path ++ [key], entries := ← openTables path key doc.entries }, cs)
    | _ => none
  | '[' :: cs =>
    let (path, key, cs) ← dottedKey? fuel [] cs
    match cs with
    | ']' :: cs =>
      some ({ header := path ++ [key], entries := ← openTable path key doc.entries }, cs)
    | _ => none
  | _ => none

/-- The lines of a document. -/
def lines? : Nat → Document → List Char → Option Document
  | 0, _, _ => none
  | fuel + 1, doc, cs =>
    match skipSpaces cs with
    | [] => some doc
    | '#' :: cs => do lines? fuel doc (← finishLine? ('#' :: cs))
    | '[' :: cs => do
      let (doc, cs) ← headerLine? doc ('[' :: cs)
      lines? fuel doc (← finishLine? cs)
    | cs =>
      match lineEnd? cs with
      | some rest => lines? fuel doc rest
      | none => do
        let (doc, cs) ← entryLine? doc cs
        lines? fuel doc (← finishLine? cs)

/-- The entries of a document. A byte order mark may stand in front. -/
def parse? (text : String) : Option Entries :=
  let cs :=
    match text.toList with
    | '\ufeff' :: cs => cs
    | cs => cs
  (lines? (cs.length + 1) {} cs).map Document.entries

end FieldPromotion.Toml
