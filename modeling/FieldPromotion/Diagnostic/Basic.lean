import FieldPromotion.Error

/-!
# Diagnostics

An error as it is shown to a user: its code and message, the places in the source it points at, and
notes that go with it.
-/

namespace FieldPromotion

/-- Whether a label marks the place of the error itself or one that has to do with it. -/
inductive LabelStyle where
  | primary
  | secondary
  deriving DecidableEq, Inhabited

/-- A marked byte range of the source. -/
structure Label where
  style : LabelStyle
  start : UInt64
  stop : UInt64
  message : String
  deriving DecidableEq, Inhabited

/-- An error as it is shown. -/
structure Diagnostic where
  code : String
  message : String
  labels : List Label := []
  notes : List String := []
  deriving DecidableEq, Inhabited

def Label.primary (s : Span) (message : String) : Label :=
  ⟨.primary, s.start, s.stop, message⟩

def Label.secondary (s : Span) (message : String) : Label :=
  ⟨.secondary, s.start, s.stop, message⟩

namespace Error

/-- The places an error points at, its own first. A field declared at an empty span belongs to a
class that is not in the source. -/
def labels : Error → List Label
  | .misplacedField _ place s => [.primary s ("argument field in " ++ place.text)]
  | .staticField _ s => [.primary s "'static' is not allowed here"]
  | .duplicateField name _ earlier duplicate =>
    .primary duplicate "duplicate field" ::
      if earlier.isEmpty then []
      else [.secondary earlier ("'" ++ name ++ "' first declared here")]
  | .conflictingModifiers _ _ _ s => [.primary s "conflicting modifier"]
  | .modifierWithoutStorage _ _ s => [.primary s "modifier on a plain parameter"]
  | .cyclicInheritance _ s => [.primary s "inheritance cycle"]
  | .duplicateConstructor _ earlier duplicate =>
    [.primary duplicate "second constructor", .secondary earlier "first constructor here"]
  | .duplicateClass _ earlier duplicate =>
    [.primary duplicate "class name already used", .secondary earlier "first declared here"]

/-- What is said about an error besides its message. -/
def notes : Error → List String
  | .misplacedField _ _ _ =>
    ["help: argument fields are only allowed on constructors of concrete top-level classes; "
      ++ "declare the field in the class body instead"]
  | .staticField _ _ => ["help: declare a static field in the class body instead"]
  | .duplicateField name cls earlier _ =>
    if earlier.isEmpty then ["'" ++ name ++ "' is declared in class '" ++ cls ++ "'"] else []
  | .conflictingModifiers _ _ second _ => ["help: remove '" ++ second.text ++ "'"]
  | .modifierWithoutStorage name modifier _ =>
    ["help: add 'var' or 'final' to make '" ++ name ++ "' a field, or remove '" ++ modifier.text
      ++ "'"]
  | .cyclicInheritance _ _ => ["classes whose superclass chain loops are not desugared"]
  | .duplicateConstructor _ _ _ => []
  | .duplicateClass _ _ _ =>
    ["help: rename one of the classes; only the first declaration is desugared"]

/-- The diagnostic of an error. -/
def diagnostic (e : Error) : Diagnostic where
  code := e.code
  message := e.message
  labels := e.labels
  notes := e.notes

end Error

end FieldPromotion
