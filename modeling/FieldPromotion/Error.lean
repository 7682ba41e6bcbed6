import FieldPromotion.Tree.Stmt

/-!
# Errors

What can be wrong with the argument fields of a module, each with its code, its message and the
span it is reported at. An argument field is a constructor parameter written with `var` or `final`,
which stands for a field of the class.
-/

namespace FieldPromotion

/-- Where a parameter stands that may not be an argument field. -/
inductive Place where
  | method (cls name : String)
  | abstractCtor (cls : String)
  | function (name : String)
  | localCtor (cls : String)
  deriving DecidableEq, Inhabited

/-- How a message names a place. -/
def Place.text : Place → String
  | .method cls name => "method '" ++ cls ++ "." ++ name ++ "'"
  | .abstractCtor cls => "the constructor of abstract class '" ++ cls ++ "'"
  | .function name => "function '" ++ name ++ "'"
  | .localCtor cls => "the constructor of local class '" ++ cls ++ "'"

/-- An error in a module. -/
inductive Error where
  | misplacedField (name : String) (place : Place) (span : Span)
  | staticField (name : String) (span : Span)
  | duplicateField (name cls : String) (earlier duplicate : Span)
  | conflictingModifiers (name : String) (first second : Keyword) (span : Span)
  | modifierWithoutStorage (name : String) (modifier : Keyword) (span : Span)
  | cyclicInheritance (cls : String) (span : Span)
  | duplicateConstructor (cls : String) (earlier duplicate : Span)
  | duplicateClass (cls : String) (earlier duplicate : Span)
  deriving DecidableEq, Inhabited

namespace Error

/-- The message of an error. -/
def message : Error → String
  | .misplacedField name place _ =>
    "Argument field '" ++ name ++ "' is not allowed in " ++ place.text
  | .staticField name _ => "Argument field '" ++ name ++ "' cannot be static"
  | .duplicateField name cls _ _ =>
    "Duplicate field '" ++ name ++ "': already declared in class '" ++ cls ++ "'"
  | .conflictingModifiers name first second _ =>
    "Modifier '" ++ second.text ++ "' conflicts with '" ++ first.text ++ "' on parameter '"
      ++ name ++ "'"
  | .modifierWithoutStorage name modifier _ =>
    "Modifier '" ++ modifier.text ++ "' on parameter '" ++ name ++ "' requires 'var' or 'final'"
  | .cyclicInheritance cls _ => "Class '" ++ cls ++ "' has a cyclic superclass chain"
  | .duplicateConstructor cls _ _ => "Class '" ++ cls ++ "' declares more than one constructor"
  | .duplicateClass cls _ _ => "Class '" ++ cls ++ "' is already declared in this module"

/-- The span an error is reported at; of two declarations that clash it is the later one. -/
def span : Error → Span
  | .misplacedField _ _ s => s
  | .staticField _ s => s
  | .duplicateField _ _ _ s => s
  | .conflictingModifiers _ _ _ s => s
  | .modifierWithoutStorage _ _ s => s
  | .cyclicInheritance _ s => s
  | .duplicateConstructor _ _ s => s
  | .duplicateClass _ _ s => s

/-- The code of an error. -/
def code : Error → String
  | .misplacedField _ _ _ => "E4001"
  | .staticField _ _ => "E4002"
  | .duplicateField _ _ _ _ => "E4003"
  | .conflictingModifiers _ _ _ _ => "E4004"
  | .modifierWithoutStorage _ _ _ => "E4005"
  | .cyclicInheritance _ _ => "E4006"
  | .duplicateConstructor _ _ _ => "E4007"
  | .duplicateClass _ _ _ => "E4008"

end Error

end FieldPromotion
