import FieldPromotion.Tree.Decode
import FieldPromotion.Tree.Encode

/-!
# Options

What a user can choose about promoted fields: their visibility when the parameter says nothing, and
whether they stand before or after the fields that a class has already.
-/

namespace FieldPromotion

open Json

/-- Where promoted fields go: after the last field of the class, or before the first one. -/
inductive FieldOrder where
  | append
  | prepend
  deriving DecidableEq, Inhabited

def FieldOrder.text : FieldOrder → String
  | .append => "append"
  | .prepend => "prepend"

/-- The choices of a user. -/
structure Options where
  defaultVisibility : Visibility := .priv
  fieldOrder : FieldOrder := .append
  deriving DecidableEq, Inhabited

/-- The content of a configuration file. -/
structure Config where
  options : Options := {}
  deriving DecidableEq, Inhabited

/-! ## JSON form -/

/-- A part that has a default value, in an object as well as in an array. -/
def Json.Field.defaulting {α : Type} (key : String) (d : Decoder α) (value : α) : Field α where
  key := key
  decode := d
  absent := some value
  short := some value

def FieldOrder.decoder : Decoder FieldOrder :=
  Decoder.names ([FieldOrder.append, .prepend].map fun o => (o.text, o))

/-- Options refuse keys that they do not know. -/
def Options.decoder : Decoder Options :=
  Decoder.record "DesugarOptions"
    (.cons (.defaulting "default-visibility" Visibility.decoder .priv) <|
     .cons (.defaulting "field-order" FieldOrder.decoder .append) .nil)
    (fun (defaultVisibility, fieldOrder, ()) => { defaultVisibility, fieldOrder }) true

def Config.decoder : Decoder Config :=
  Decoder.record "DesugarConfig"
    (.cons (.defaulting "desugar" Options.decoder {}) .nil)
    fun (options, ()) => { options }

def Options.toJson (o : Options) : Json :=
  .obj [("default-visibility", o.defaultVisibility.toJson), ("field-order", .str o.fieldOrder.text)]

def Config.toJson (c : Config) : Json :=
  .obj [("desugar", c.options.toJson)]

end FieldPromotion
