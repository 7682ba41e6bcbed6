import FieldPromotion.Json.Decode
import FieldPromotion.Tree.Stmt

/-!
# Reading trees

One decoder per node, the counterpart of the JSON form. Types, expressions and statements contain
themselves; their decoders are unfolded once for each level of nesting that a text may have, and
every node takes up at least one level.
-/

namespace FieldPromotion

open Json

/-- A part that may be left out of an object, or be `null`. -/
def Json.Field.optional {α : Type} (key : String) (d : Decoder α) : Field (Option α) where
  key := key
  decode := Decoder.optional d
  absent := some none

/-- A part that has to be there. -/
def Json.Field.required {α : Type} (key : String) (d : Decoder α) : Field α where
  key := key
  decode := d

open Json.Field (optional required)

def Span.decoder : Decoder Span :=
  Decoder.record "Span"
    (.cons (required "start" Decoder.uint64) <|
     .cons (required "end" Decoder.uint64) <|
     .cons (required "line" Decoder.uint32) <|
     .cons (required "column" Decoder.uint32) .nil)
    fun (start, stop, line, column, ()) => { start, stop, line, column }

def Ident.decoder : Decoder Ident :=
  Decoder.record "Identifier"
    (.cons (required "name" Decoder.string) <|
     .cons (required "span" Span.decoder) .nil)
    fun (name, span, ()) => { name, span }

/-! ## §1 Types -/

def Primitive.decoder : Decoder Primitive :=
  Decoder.names (Primitive.all.map fun p => (p.name, p))

namespace TypeExpr

/-- A type as it stands in an annotation, which adds the span. -/
def shapeDecoder (inner : Decoder TypeExpr) : Decoder (Span → TypeExpr) :=
  Decoder.variants [
    ("Primitive", .payload (Primitive.decoder.map .primitive)),
    ("Reference", .payload (Decoder.record "TypeReference"
      (.cons (required "name" Ident.decoder) <|
       .cons (optional "type_args" (Decoder.list inner)) .nil)
      fun (name, args, ()) =>
        match args with
        | none => .named name
        | some args => .applied name args)),
    ("Array", .payload (inner.map .array))]

/-- Type annotations that are nested less deep than `fuel`. -/
def decoderOfFuel : Nat → Decoder TypeExpr
  | 0 => fun _ _ => refuse .malformed
  | fuel + 1 => fun levels draft =>
    Decoder.record "TypeAnnotation"
      (.cons (required "ty" (shapeDecoder (decoderOfFuel fuel))) <|
       .cons (required "span" Span.decoder) .nil)
      (fun (shape, span, ()) => shape span) false levels draft

def decoder : Decoder TypeExpr :=
  fun levels => decoderOfFuel (levels + 1) levels

end TypeExpr

/-! ## §2 Expressions -/

namespace Expr

/-- An expression whose parts are read by `self`. -/
def stepDecoder (self : Decoder Expr) : Decoder Expr :=
  let literal {α : Type} (name : String) (d : Decoder α) (build : α → Span → Expr) :
      Alternative Expr :=
    .payload (Decoder.record name
      (.cons (required "value" d) <| .cons (required "span" Span.decoder) .nil)
      fun (value, span, ()) => build value span)
  Decoder.variants [
    ("IntLiteral", literal "IntLiteral" Decoder.int64 .int),
    ("FloatLiteral", literal "FloatLiteral" Decoder.float .float),
    ("StringLiteral", literal "StringLiteral" Decoder.string .string),
    ("BooleanLiteral", literal "BooleanLiteral" Decoder.bool .bool),
    ("NullLiteral", .payload (Span.decoder.map .null)),
    ("Identifier", .payload (Ident.decoder.map .ident)),
    ("This", .payload (Span.decoder.map .thisRef)),
    ("Super", .payload (Span.decoder.map .superRef)),
    ("Member", .payload (Decoder.record "MemberExpression"
      (.cons (required "object" self) <|
       .cons (required "property" Ident.decoder) <|
       .cons (required "span" Span.decoder) .nil)
      fun (object, property, span, ()) => .member object property span)),
    ("Call", .payload (Decoder.record "CallExpression"
      (.cons (required "callee" self) <|
       .cons (required "arguments" (Decoder.list self)) <|
       .cons (required "span" Span.decoder) .nil)
      fun (callee, arguments, span, ()) => .call callee arguments span)),
    ("Assignment", .payload (Decoder.record "AssignmentExpression"
      (.cons (required "target" self) <|
       .cons (required "value" self) <|
       .cons (required "span" Span.decoder) .nil)
      fun (target, value, span, ()) => .assign target value span))]

/-- Expressions that are nested less deep than `fuel`. -/
def decoderOfFuel : Nat → Decoder Expr
  | 0 => fun _ _ => refuse .malformed
  | fuel + 1 => fun levels draft => stepDecoder (decoderOfFuel fuel) levels draft

def decoder : Decoder Expr :=
  fun levels => decoderOfFuel (levels + 1) levels

end Expr

/-! ## §3 Parameters and fields -/

def Storage.decoder : Decoder Storage :=
  Decoder.names ([Storage.var, .final].map fun s => (s.keyword, s))

def Visibility.decoder : Decoder Visibility :=
  Decoder.names ([Visibility.pub, .priv].map fun v => (v.keyword, v))

def Keyword.decoder : Decoder Keyword :=
  Decoder.names (Keyword.all.map fun k => (k.text, k))

def Modifier.decoder : Decoder Modifier :=
  Decoder.record "Modifier"
    (.cons (required "kind" Keyword.decoder) <|
     .cons (required "span" Span.decoder) .nil)
    fun (keyword, span, ()) => { keyword, span }

def Metadata.decoder : Decoder Metadata :=
  Decoder.record "MetadataEntry"
    (.cons (required "name" Ident.decoder) <|
     .cons (required "args" (Decoder.list Expr.decoder)) <|
     .cons (required "span" Span.decoder) .nil)
    fun (name, args, span, ()) => { name, args, span }

def Param.decoder : Decoder Param :=
  Decoder.record "Parameter"
    (.cons (required "metadata" (Decoder.list Metadata.decoder)) <|
     .cons (required "modifiers" (Decoder.list Modifier.decoder)) <|
     .cons (required "name" Ident.decoder) <|
     .cons (optional "type_annotation" TypeExpr.decoder) <|
     .cons (optional "default_value" Expr.decoder) <|
     .cons (required "span" Span.decoder) .nil)
    fun (metadata, modifiers, name, type, defaultValue, span, ()) =>
      { metadata, modifiers, name, type, defaultValue, span }

def VarDecl.decoder : Decoder VarDecl :=
  Decoder.record "VariableDecl"
    (.cons (required "storage" Storage.decoder) <|
     .cons (required "name" Ident.decoder) <|
     .cons (optional "type_annotation" TypeExpr.decoder) <|
     .cons (optional "initializer" Expr.decoder) <|
     .cons (required "span" Span.decoder) .nil)
    fun (storage, name, type, init, span, ()) => { storage, name, type, init, span }

def FieldDecl.decoder : Decoder FieldDecl :=
  Decoder.record "FieldDecl"
    (.cons (required "metadata" (Decoder.list Metadata.decoder)) <|
     .cons (required "visibility" Visibility.decoder) <|
     .cons (required "storage" Storage.decoder) <|
     .cons (required "is_static" Decoder.bool) <|
     .cons (required "name" Ident.decoder) <|
     .cons (optional "type_annotation" TypeExpr.decoder) <|
     .cons (optional "initializer" Expr.decoder) <|
     .cons (required "span" Span.decoder) .nil)
    fun (metadata, visibility, storage, isStatic, name, type, init, span, ()) =>
      { metadata, visibility, storage, isStatic, name, type, init, span }

/-! ## §4 Statements and classes -/

/-- A block whose statements are read by `stmt`. -/
def Block.decoderOf (stmt : Decoder Stmt) : Decoder Block :=
  Decoder.record "BlockStatement"
    (.cons (required "statements" (Decoder.list stmt)) <|
     .cons (required "span" Span.decoder) .nil)
    fun (statements, span, ()) => { statements, span }

def FunDecl.decoderOf (stmt : Decoder Stmt) : Decoder FunDecl :=
  Decoder.record "FunctionDecl"
    (.cons (required "name" Ident.decoder) <|
     .cons (required "params" (Decoder.list Param.decoder)) <|
     .cons (optional "return_type" TypeExpr.decoder) <|
     .cons (required "body" (Block.decoderOf stmt)) <|
     .cons (required "span" Span.decoder) .nil)
    fun (name, params, returns, body, span, ()) => { name, params, returns, body, span }

def MethodDecl.decoderOf (stmt : Decoder Stmt) : Decoder MethodDecl :=
  Decoder.record "MethodDecl"
    (.cons (required "metadata" (Decoder.list Metadata.decoder)) <|
     .cons (required "visibility" Visibility.decoder) <|
     .cons (required "is_abstract" Decoder.bool) <|
     .cons (required "is_static" Decoder.bool) <|
     .cons (required "name" Ident.decoder) <|
     .cons (required "params" (Decoder.list Param.decoder)) <|
     .cons (optional "return_type" TypeExpr.decoder) <|
     .cons (optional "body" (Block.decoderOf stmt)) <|
     .cons (required "span" Span.decoder) .nil)
    fun (metadata, visibility, isAbstract, isStatic, name, params, returns, body, span, ()) =>
      { metadata, visibility, isAbstract, isStatic, name, params, returns, body, span }

def CtorDecl.decoderOf (stmt : Decoder Stmt) : Decoder CtorDecl :=
  Decoder.record "ConstructorDecl"
    (.cons (required "params" (Decoder.list Param.decoder)) <|
     .cons (required "body" (Block.decoderOf stmt)) <|
     .cons (required "span" Span.decoder) .nil)
    fun (params, body, span, ()) => { params, body, span }

def Member.decoderOf (stmt : Decoder Stmt) : Decoder Member :=
  Decoder.variants [
    ("Field", .payload (FieldDecl.decoder.map .field)),
    ("Method", .payload ((MethodDecl.decoderOf stmt).map .method)),
    ("Constructor", .payload ((CtorDecl.decoderOf stmt).map .ctor))]

def ClassDecl.decoderOf (stmt : Decoder Stmt) : Decoder ClassDecl :=
  Decoder.record "ClassDecl"
    (.cons (required "metadata" (Decoder.list Metadata.decoder)) <|
     .cons (required "is_abstract" Decoder.bool) <|
     .cons (required "name" Ident.decoder) <|
     .cons (optional "extends" Ident.decoder) <|
     .cons (required "members" (Decoder.list (Member.decoderOf stmt))) <|
     .cons (required "span" Span.decoder) .nil)
    fun (metadata, isAbstract, name, superclass, members, span, ()) =>
      { metadata, isAbstract, name, superclass, members, span }

namespace Stmt

/-- A statement whose parts are read by `self`. -/
def stepDecoder (self : Decoder Stmt) : Decoder Stmt :=
  Decoder.variants [
    ("VariableDecl", .payload (VarDecl.decoder.map .varDecl)),
    ("FunctionDecl", .payload ((FunDecl.decoderOf self).map .funDecl)),
    ("ClassDecl", .payload ((ClassDecl.decoderOf self).map .classDecl)),
    ("Expression", .payload (Decoder.record "ExpressionStatement"
      (.cons (required "expression" Expr.decoder) <|
       .cons (required "span" Span.decoder) .nil)
      fun (expression, span, ()) => .expr expression span)),
    ("If", .payload (Decoder.record "IfStatement"
      (.cons (required "condition" Expr.decoder) <|
       .cons (required "then_branch" self) <|
       .cons (optional "else_branch" self) <|
       .cons (required "span" Span.decoder) .nil)
      fun (condition, thenBranch, elseBranch, span, ()) =>
        .cond condition thenBranch elseBranch span)),
    ("While", .payload (Decoder.record "WhileStatement"
      (.cons (required "condition" Expr.decoder) <|
       .cons (required "body" self) <|
       .cons (required "span" Span.decoder) .nil)
      fun (condition, body, span, ()) => .loop condition body span)),
    ("Return", .payload (Decoder.record "ReturnStatement"
      (.cons (optional "value" Expr.decoder) <|
       .cons (required "span" Span.decoder) .nil)
      fun (value, span, ()) => .ret value span)),
    ("Block", .payload ((Block.decoderOf self).map .block)),
    ("Empty", .payload (Span.decoder.map .empty))]

/-- Statements that are nested less deep than `fuel`. -/
def decoderOfFuel : Nat → Decoder Stmt
  | 0 => fun _ _ => refuse .malformed
  | fuel + 1 => fun levels draft => stepDecoder (decoderOfFuel fuel) levels draft

def decoder : Decoder Stmt :=
  fun levels => decoderOfFuel (levels + 1) levels

end Stmt

def Member.decoder : Decoder Member :=
  Member.decoderOf Stmt.decoder

def CtorDecl.decoder : Decoder CtorDecl :=
  CtorDecl.decoderOf Stmt.decoder

def ClassDecl.decoder : Decoder ClassDecl :=
  ClassDecl.decoderOf Stmt.decoder

def Module.decoder : Decoder Module :=
  Decoder.record "Module"
    (.cons (required "statements" (Decoder.list Stmt.decoder)) <|
     .cons (required "span" Span.decoder) .nil)
    fun (statements, span, ()) => { statements, span }

end FieldPromotion
