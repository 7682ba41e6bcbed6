import FieldPromotion.Span

/-!
# Type annotations

A type annotation is a built-in type, a type named by the program (with or without type
arguments), or an array of another annotation. Every node carries the span it was written at.
-/

namespace FieldPromotion

/-- The built-in types. -/
inductive Primitive where
  | int
  | float
  | string
  | bool
  | void
  | dynamic
  deriving DecidableEq, Inhabited

/-- The name a built-in type is written with. -/
def Primitive.name : Primitive → String
  | .int => "Int"
  | .float => "Float"
  | .string => "String"
  | .bool => "Bool"
  | .void => "Void"
  | .dynamic => "Dynamic"

/-- All built-in types, in the order they are listed to the user. -/
def Primitive.all : List Primitive :=
  [.int, .float, .string, .bool, .void, .dynamic]

/-- A type annotation with its span. `applied` is a named type with an argument list, which may
be empty; `named` has none at all. -/
inductive TypeExpr where
  | primitive (kind : Primitive) (span : Span)
  | named (name : Ident) (span : Span)
  | applied (name : Ident) (args : List TypeExpr) (span : Span)
  | array (element : TypeExpr) (span : Span)
  deriving Inhabited

namespace TypeExpr

/-- The span of an annotation. -/
def span : TypeExpr → Span
  | .primitive _ s => s
  | .named _ s => s
  | .applied _ _ s => s
  | .array _ s => s

/-- The built-in type of an annotation, if it is one. -/
def primitive? : TypeExpr → Option Primitive
  | .primitive kind _ => some kind
  | _ => none

/-- Whether a named type has type arguments; `none` for built-in types and arrays. -/
def isGeneric? : TypeExpr → Option Bool
  | .named _ _ => some false
  | .applied _ _ _ => some true
  | _ => none

end TypeExpr

end FieldPromotion
