import FieldPromotion.Json.Draft
import FieldPromotion.Decimal.Layout
import FieldPromotion.Text.Shown

/-!
# Decoding drafts

A decoder turns a draft into a value of some type or says what is wrong with it. It knows how many
levels of arrays and objects it may still enter; one level more than that is refused as malformed.

Records and variants are the two shapes of the format. A record is written as an object with one
entry per field, or as an array of the fields in order. A variant is written as its name when it
carries nothing, and as an object with its name as the only key otherwise.

Like the rules of the text, those of the shapes come with the JSON reader that the format relies on,
and so do the messages. Stated here are:

* arrays and objects are nested up to 127 levels, counted where they are decoded and not where they
  are skipped;
* the entries of an object are decoded in text order, and the first error ends the reading; a
  missing field is noticed at the closing bracket only, and the first one in declaration order is
  named;
* a key that appears again is an error if it is that of a field, and one that belongs to no field is
  skipped, unless the record is strict;
* a record that is written as an array has to have exactly its fields, where those at the end may be
  left out if they have a value for that case;
* a variant without payload may also be written as an object with `null` in it, and an unknown name
  is answered with the list of all names;
* a type mismatch says what was found and what was expected, with the names that the reader has for
  the kinds of values and for the integer types;
* nothing but blanks may follow the value that was asked for.

What a record or variant of the tree consists of, which fields have a value when they are absent,
and which records are strict is not fixed here. The modules on trees, options and units say that.
-/

namespace FieldPromotion.Json

/-! ## §1 Errors -/

/-- A well formed text that does not fit the type it is read as. -/
inductive Mismatch where
  | wrongType (found : Found) (expected : String)
  | outOfRange (value : Int) (expected : String)
  | wrongLength (length : Nat) (expected : String)
  | unknownVariant (name : String) (expected : List String)
  | unknownField (name : String) (expected : List String)
  | missingField (name : String)
  | duplicateField (name : String)
  deriving Inhabited

/-- Why a text could not be read. -/
inductive ReadError where
  | flaw (flaw : Flaw)
  | mismatch (mismatch : Mismatch)
  deriving Inhabited

/-- How a message names what was found. -/
def Found.text : Found → String
  | .null => "null"
  | .bool b => "boolean `" ++ (if b then "true" else "false") ++ "`"
  | .int i => "integer `" ++ toString i ++ "`"
  | .float x => "floating point `" ++ Decimal.messageText x ++ "`"
  | .string s => "string " ++ Text.shown s
  | .sequence => "sequence"
  | .map => "map"
  | .unitVariant => "unit variant"

/-- How a message lists the names that were expected. -/
def oneOf : List String → String
  | [] => "there are no variants"
  | [a] => "expected `" ++ a ++ "`"
  | [a, b] => "expected `" ++ a ++ "` or `" ++ b ++ "`"
  | names => "expected one of " ++ ", ".intercalate (names.map fun n => "`" ++ n ++ "`")

/-- The message of a mismatch. -/
def Mismatch.message : Mismatch → String
  | .wrongType found expected => "invalid type: " ++ found.text ++ ", expected " ++ expected
  | .outOfRange value expected =>
    "invalid value: " ++ (Found.int value).text ++ ", expected " ++ expected
  | .wrongLength n expected => "invalid length " ++ toString n ++ ", expected " ++ expected
  | .unknownVariant name expected => "unknown variant `" ++ name ++ "`, " ++ oneOf expected
  | .unknownField name expected => "unknown field `" ++ name ++ "`, " ++ oneOf expected
  | .missingField name => "missing field `" ++ name ++ "`"
  | .duplicateField name => "duplicate field `" ++ name ++ "`"

/-! ## §2 Decoders -/

/-- Decodes a draft that may enter the given number of levels. -/
abbrev Decoder (α : Type) : Type :=
  Nat → Draft → Except ReadError α

/-- A flaw as the outcome of a decoder. -/
def refuse {α : Type} (flaw : Flaw) : Except ReadError α :=
  .error (.flaw flaw)

/-- Carries a flaw over to the errors of decoders. -/
def orFlaw {α : Type} : Except Flaw α → Except ReadError α
  | .ok a => .ok a
  | .error flaw => refuse flaw

/-- Reports that a draft is not what was expected; a flaw in it comes first. -/
def expected {α : Type} (what : String) (draft : Draft) : Except ReadError α :=
  match draft.found with
  | .error flaw => refuse flaw
  | .ok found => .error (.mismatch (.wrongType found what))

/-- What a complete reading finds at the end of an array or object. -/
def Ending.read : Ending → Except ReadError Unit
  | .closed => .ok ()
  | .cut _ reading _ => refuse reading

/-- What is found at the end of an array or object that must not go on: even a comma is a flaw. -/
def Ending.readLast : Ending → Except ReadError Unit
  | .closed => .ok ()
  | .cut afterComma reading _ => refuse (if afterComma then .malformed else reading)

namespace Decoder

/-- Applies a function to what is decoded. -/
def map {α β : Type} (f : α → β) (d : Decoder α) : Decoder β :=
  fun levels draft => (d levels draft).map f

/-- A string. -/
def string : Decoder String
  | _, .string q => orFlaw q.text
  | _, draft => expected "a string" draft

/-- A boolean. -/
def bool : Decoder Bool
  | _, .bool b => .ok b
  | _, draft => expected "a boolean" draft

/-- Nothing, written `null`. -/
def unit : Decoder Unit
  | _, .null => .ok ()
  | _, draft => expected "unit" draft

/-- An integer between two bounds. -/
def intBetween (low high : Int) (what : String) : Decoder Int
  | _, .number (.ok (.int i)) _ =>
    if low ≤ i ∧ i ≤ high then .ok i else .error (.mismatch (.outOfRange i what))
  | _, draft => expected what draft

/-- An unsigned integer of 64 bits. -/
def uint64 : Decoder UInt64 :=
  map (fun i => i.toNat.toUInt64) (intBetween 0 18446744073709551615 "usize")

/-- An unsigned integer of 32 bits. -/
def uint32 : Decoder UInt32 :=
  map (fun i => i.toNat.toUInt32) (intBetween 0 4294967295 "u32")

/-- A signed integer of 64 bits. -/
def int64 : Decoder Int64 :=
  map Int64.ofInt (intBetween (-9223372036854775808) 9223372036854775807 "i64")

/-- A double; an integer is rounded to the nearest one. -/
def float : Decoder Float
  | _, .number (.ok (.float x)) _ => .ok x
  | _, .number (.ok (.int i)) _ =>
    .ok (if i < 0 then -(i.natAbs.toUInt64.toFloat) else i.toNat.toUInt64.toFloat)
  | _, draft => expected "f64" draft

/-- A value that may be left out by writing `null`. -/
def optional {α : Type} (d : Decoder α) : Decoder (Option α)
  | _, .null => .ok none
  | _, .brokenNull flaw => refuse flaw
  | levels, draft => (d levels draft).map some

/-- Decodes items from left to right. -/
def items {α : Type} (d : Decoder α) (levels : Nat) (ending : Ending) :
    List Draft → Except ReadError (List α)
  | [] => ending.read.map fun _ => []
  | x :: xs =>
    match d levels x with
    | .error e => .error e
    | .ok a => (items d levels ending xs).map (a :: ·)

/-- A list, written as an array. -/
def list {α : Type} (d : Decoder α) : Decoder (List α)
  | 0, .array _ _ => refuse .malformed
  | levels + 1, .array xs ending => items d levels ending xs
  | _, draft => expected "a sequence" draft

end Decoder

/-! ## §3 Records -/

/-- A field of a record. `absent` is the value taken when an object has no such entry, and `short`
the one taken when an array ends before it. -/
structure Field (α : Type) where
  key : String
  decode : Decoder α
  absent : Option α := none
  short : Option α := none

/-- The fields of a record in declaration order. -/
inductive Fields : List Type → Type 1 where
  | nil : Fields []
  | cons {α : Type} {αs : List Type} (field : Field α) (rest : Fields αs) : Fields (α :: αs)

/-- One value for each field. -/
def Values : List Type → Type
  | [] => Unit
  | α :: αs => α × Values αs

/-- For each field the value found so far. -/
def Slots : List Type → Type
  | [] => Unit
  | α :: αs => Option α × Slots αs

/-- No value found yet. -/
def Slots.empty : (αs : List Type) → Slots αs
  | [] => ()
  | _ :: αs => (none, Slots.empty αs)

namespace Fields

/-- The keys of the fields. -/
def keys : {αs : List Type} → Fields αs → List String
  | _, .nil => []
  | _, .cons field rest => field.key :: rest.keys

/-- Decodes the value of an entry into its slot; `none` when no field has that key. A slot takes
one value only. -/
def fill (levels : Nat) (key : String) (draft : Draft) :
    {αs : List Type} → Fields αs → Slots αs → Option (Except ReadError (Slots αs))
  | _, .nil, _ => none
  | _, .cons field rest, (slot, slots) =>
    if field.key = key then
      match slot with
      | some _ => some (.error (.mismatch (.duplicateField key)))
      | none => some ((field.decode levels draft).map fun a => (some a, slots))
    else
      (rest.fill levels key draft slots).map fun r => r.map fun slots => (slot, slots)

/-- The values of all fields, with those that were not found filled in. -/
def finish : {αs : List Type} → Fields αs → Slots αs → Except ReadError (Values αs)
  | _, .nil, _ => .ok ()
  | _, .cons field rest, (slot, slots) =>
    match slot.or field.absent with
    | none => .error (.mismatch (.missingField field.key))
    | some a => (rest.finish slots).map fun as => (a, as)

/-- Decodes the entries of an object in text order. An entry with another key is skipped, or
refused when the record is `strict`. -/
def ofEntries (strict : Bool) (levels : Nat) (ending : Ending) {αs : List Type} (fields : Fields αs) :
    List (Quoted × Draft) → Slots αs → Except ReadError (Values αs)
  | [], slots => ending.read.bind fun _ => fields.finish slots
  | (key, draft) :: entries, slots =>
    match key.text with
    | .error flaw => refuse flaw
    | .ok key =>
      match fields.fill levels key draft slots with
      | some (.ok slots) => fields.ofEntries strict levels ending entries slots
      | some (.error e) => .error e
      | none =>
        if strict then .error (.mismatch (.unknownField key fields.keys))
        else
          match draft.skip with
          | .error flaw => refuse flaw
          | .ok () => fields.ofEntries strict levels ending entries slots

/-- Decodes the items of an array in order, the first of them being the field number `index`.
Returns the items that are left over. -/
def ofItems (levels : Nat) (ending : Ending) (what : String) :
    {αs : List Type} → Fields αs → Nat → List Draft → Except ReadError (Values αs × List Draft)
  | _, .nil, _, items => .ok ((), items)
  | _, .cons field rest, index, [] =>
    match ending.read with
    | .error e => .error e
    | .ok () =>
      match field.short with
      | none => .error (.mismatch (.wrongLength index what))
      | some a =>
        (rest.ofItems levels ending what (index + 1) []).map fun r => ((a, r.1), r.2)
  | _, .cons field rest, index, x :: xs =>
    match field.decode levels x with
    | .error e => .error e
    | .ok a =>
      (rest.ofItems levels ending what (index + 1) xs).map fun r => ((a, r.1), r.2)

end Fields

/-- A record with the given fields. -/
def Decoder.record {αs : List Type} {β : Type} (name : String) (fields : Fields αs)
    (build : Values αs → β) (strict : Bool := false) : Decoder β
  | 0, .object _ _ => refuse .malformed
  | 0, .array _ _ => refuse .malformed
  | levels + 1, .object entries ending =>
    (fields.ofEntries strict levels ending entries (Slots.empty αs)).map build
  | levels + 1, .array items ending =>
    let count := fields.keys.length
    let what := "struct " ++ name ++ " with " ++ toString count
      ++ (if count = 1 then " element" else " elements")
    match fields.ofItems levels ending what 0 items with
    | .error e => .error e
    | .ok (values, []) => ending.readLast.map fun _ => build values
    | .ok (_, _ :: _) => refuse .malformed
  | _, draft => expected ("struct " ++ name) draft

/-! ## §4 Variants -/

/-- A variant that carries nothing, or one that carries a payload. -/
inductive Alternative (α : Type) where
  | bare (value : α)
  | payload (decode : Decoder α)

namespace Decoder

/-- The alternative of a name. -/
def choose {α : Type} (alternatives : List (String × Alternative α)) (name : String) :
    Except ReadError (Alternative α) :=
  match alternatives.lookup name with
  | some alternative => .ok alternative
  | none => .error (.mismatch (.unknownVariant name (alternatives.map Prod.fst)))

/-- One of several variants. -/
def variants {α : Type} (alternatives : List (String × Alternative α)) : Decoder α
  | _, .string q =>
    match orFlaw q.text with
    | .error e => .error e
    | .ok name =>
      match choose alternatives name with
      | .error e => .error e
      | .ok (.bare value) => .ok value
      | .ok (.payload _) =>
        .error (.mismatch (.wrongType .unitVariant "newtype variant"))
  | 0, .object _ _ => refuse .malformed
  | _ + 1, .object [] ending =>
    match ending with
    | .closed => refuse .malformed
    | .cut _ reading _ => refuse reading
  | levels + 1, .object ((key, draft) :: more) ending => do
    let name ← orFlaw key.text
    let value ←
      match ← choose alternatives name with
      | .bare value => (unit levels draft).map fun _ => value
      | .payload decode => decode levels draft
    if more.isEmpty then ending.readLast.map fun _ => value else refuse .malformed
  | _, .broken flaw => refuse flaw
  | _, _ => refuse .malformed

/-- Variants that carry nothing. -/
def names {α : Type} (values : List (String × α)) : Decoder α :=
  variants (values.map fun v => (v.1, .bare v.2))

/-- How many arrays and objects may be nested in a text. -/
def maxDepth : Nat := 127

/-- Reads a whole text: one value, with nothing but blanks around it. -/
def read {α : Type} (d : Decoder α) (text : String) : Except ReadError α :=
  match Draft.scan text.toList with
  | (draft, rest) =>
    match d maxDepth draft with
    | .error e => .error e
    | .ok a =>
      match rest with
      | none => refuse .malformed
      | some rest => if (skipBlanks rest).isEmpty then .ok a else refuse .malformed

end Decoder

end FieldPromotion.Json
