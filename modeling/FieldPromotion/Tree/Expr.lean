import FieldPromotion.Span

/-!
# Expressions

The expressions that occur in parameter defaults, annotation arguments and function bodies.
-/

namespace FieldPromotion

/-- An expression with its span. An identifier carries the span of its name. -/
inductive Expr where
  | int (value : Int64) (span : Span)
  | float (value : Float) (span : Span)
  | string (value : String) (span : Span)
  | bool (value : Bool) (span : Span)
  | null (span : Span)
  | ident (id : Ident)
  | thisRef (span : Span)
  | superRef (span : Span)
  | member (object : Expr) (property : Ident) (span : Span)
  | call (callee : Expr) (arguments : List Expr) (span : Span)
  | assign (target value : Expr) (span : Span)
  deriving Inhabited

namespace Expr

/-- The span of an expression. -/
def span : Expr → Span
  | .int _ s => s
  | .float _ s => s
  | .string _ s => s
  | .bool _ s => s
  | .null s => s
  | .ident id => id.span
  | .thisRef s => s
  | .superRef s => s
  | .member _ _ s => s
  | .call _ _ s => s
  | .assign _ _ s => s

/-- Numbers, strings, booleans and `null` are literals. -/
def isLiteral : Expr → Bool
  | .int _ _ => true
  | .float _ _ => true
  | .string _ _ => true
  | .bool _ _ => true
  | .null _ => true
  | _ => false

/-- The property `p` of an expression `this.p`. -/
def thisMember? : Expr → Option Ident
  | .member (.thisRef _) property _ => some property
  | _ => none

end Expr

end FieldPromotion
