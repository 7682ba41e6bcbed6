import FieldPromotion.Options
import FieldPromotion.Toml.Parse

/-!
# Configuration files

The options of a project stand in the table `desugar` of a TOML file. Everything outside that table
is left to others, and inside it unknown keys are refused. The file is looked for in a directory
and in those above it.
-/

namespace FieldPromotion

open Toml

/-! ## §1 Options in TOML -/

/-- One of several names: a string, or a table with the name as its only key and an empty value. -/
def Toml.Value.name? {α : Type} (names : List (String × α)) : Value → Option α
  | .string s => names.lookup s
  | .table _ [(key, payload)] =>
    match payload with
    | .table _ [] => names.lookup key
    | .array [] => names.lookup key
    | _ => none
  | _ => none

def Visibility.ofToml? : Value → Option Visibility :=
  Value.name? ([Visibility.pub, .priv].map fun v => (v.keyword, v))

def FieldOrder.ofToml? : Value → Option FieldOrder :=
  Value.name? ([FieldOrder.append, .prepend].map fun o => (o.text, o))

namespace Options

/-- Takes over one entry of the table. -/
def setEntry? (o : Options) (entry : String × Value) : Option Options :=
  if entry.1 = "default-visibility" then
    (Visibility.ofToml? entry.2).map fun v => { o with defaultVisibility := v }
  else if entry.1 = "field-order" then
    (FieldOrder.ofToml? entry.2).map fun f => { o with fieldOrder := f }
  else none

/-- Options given by position: the visibility, then the order. -/
def ofItems? : List Value → Option Options
  | [] => some {}
  | [v] => (Visibility.ofToml? v).map fun v => { defaultVisibility := v }
  | v :: f :: _ => do
    return { defaultVisibility := ← Visibility.ofToml? v, fieldOrder := ← FieldOrder.ofToml? f }

/-- Options from a table, or from a list of them by position. -/
def ofToml? : Value → Option Options
  | .table _ entries => entries.foldlM setEntry? {}
  | .array items => ofItems? items
  | .tables newestFirst => ofItems? (newestFirst.reverse.map (.table .headed))
  | _ => none

end Options

/-- The configuration in a TOML text. -/
def Config.parse? (text : String) : Option Config := do
  let entries ← Toml.parse? text
  match entries.lookup "desugar" with
  | none => return {}
  | some v => return { options := ← Options.ofToml? v }

end FieldPromotion
