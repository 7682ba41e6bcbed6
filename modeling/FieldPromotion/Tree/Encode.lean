import FieldPromotion.Json.Value
import FieldPromotion.Tree.Stmt

/-!
# The JSON form of a tree

Every node is an object whose keys are the parts of the node in a fixed order. Where a node is one
of several kinds, the object has the name of the kind as its only key. Parts that may be absent are
always written, as `null` when they are.
-/

namespace FieldPromotion

open Json

def Span.toJson (s : Span) : Json :=
  .obj [("start", .nat s.start.toNat), ("end", .nat s.stop.toNat),
    ("line", .nat s.line.toNat), ("column", .nat s.column.toNat)]

def Ident.toJson (id : Ident) : Json :=
  .obj [("name", .str id.name), ("span", id.span.toJson)]

/-! ## §1 Types -/

def Primitive.toJson (p : Primitive) : Json :=
  .str p.name

namespace TypeExpr

mutual

def toJson : TypeExpr → Json
  | .primitive kind span =>
    .obj [("ty", .obj [("Primitive", kind.toJson)]), ("span", span.toJson)]
  | .named name span =>
    .obj [("ty", .obj [("Reference", .obj [("name", name.toJson), ("type_args", .null)])]),
      ("span", span.toJson)]
  | .applied name args span =>
    .obj [("ty", .obj [("Reference", .obj [("name", name.toJson), ("type_args", .arr (argsToJson args))])]),
      ("span", span.toJson)]
  | .array element span =>
    .obj [("ty", .obj [("Array", element.toJson)]), ("span", span.toJson)]

def argsToJson : List TypeExpr → List Json
  | [] => []
  | t :: ts => t.toJson :: argsToJson ts

end

end TypeExpr

/-! ## §2 Expressions -/

namespace Expr

mutual

def toJson : Expr → Json
  | .int value span =>
    .obj [("IntLiteral", .obj [("value", .int value.toInt), ("span", span.toJson)])]
  | .float value span =>
    .obj [("FloatLiteral", .obj [("value", .float value), ("span", span.toJson)])]
  | .string value span =>
    .obj [("StringLiteral", .obj [("value", .str value), ("span", span.toJson)])]
  | .bool value span =>
    .obj [("BooleanLiteral", .obj [("value", .bool value), ("span", span.toJson)])]
  | .null span => .obj [("NullLiteral", span.toJson)]
  | .ident id => .obj [("Identifier", id.toJson)]
  | .thisRef span => .obj [("This", span.toJson)]
  | .superRef span => .obj [("Super", span.toJson)]
  | .member object property span =>
    .obj [("Member", .obj [("object", object.toJson), ("property", property.toJson),
      ("span", span.toJson)])]
  | .call callee arguments span =>
    .obj [("Call", .obj [("callee", callee.toJson), ("arguments", .arr (argsToJson arguments)),
      ("span", span.toJson)])]
  | .assign target value span =>
    .obj [("Assignment", .obj [("target", target.toJson), ("value", value.toJson),
      ("span", span.toJson)])]

def argsToJson : List Expr → List Json
  | [] => []
  | e :: es => e.toJson :: argsToJson es

end

end Expr

/-! ## §3 Parameters and fields -/

def Storage.toJson (s : Storage) : Json :=
  .str s.keyword

def Visibility.toJson (v : Visibility) : Json :=
  .str v.keyword

def Keyword.toJson (k : Keyword) : Json :=
  .str k.text

def Modifier.toJson (m : Modifier) : Json :=
  .obj [("kind", m.keyword.toJson), ("span", m.span.toJson)]

def Metadata.toJson (m : Metadata) : Json :=
  .obj [("name", m.name.toJson), ("args", .ofList Expr.toJson m.args), ("span", m.span.toJson)]

def Param.toJson (p : Param) : Json :=
  .obj [("metadata", .ofList Metadata.toJson p.metadata),
    ("modifiers", .ofList Modifier.toJson p.modifiers),
    ("name", p.name.toJson),
    ("type_annotation", .ofOption TypeExpr.toJson p.type),
    ("default_value", .ofOption Expr.toJson p.defaultValue),
    ("span", p.span.toJson)]

def VarDecl.toJson (d : VarDecl) : Json :=
  .obj [("storage", d.storage.toJson), ("name", d.name.toJson),
    ("type_annotation", .ofOption TypeExpr.toJson d.type),
    ("initializer", .ofOption Expr.toJson d.init),
    ("span", d.span.toJson)]

def FieldDecl.toJson (d : FieldDecl) : Json :=
  .obj [("metadata", .ofList Metadata.toJson d.metadata),
    ("visibility", d.visibility.toJson),
    ("storage", d.storage.toJson),
    ("is_static", .bool d.isStatic),
    ("name", d.name.toJson),
    ("type_annotation", .ofOption TypeExpr.toJson d.type),
    ("initializer", .ofOption Expr.toJson d.init),
    ("span", d.span.toJson)]

/-! ## §4 Statements and classes -/

mutual

def Stmt.toJson : Stmt → Json
  | .varDecl d => .obj [("VariableDecl", d.toJson)]
  | .funDecl d => .obj [("FunctionDecl", d.toJson)]
  | .classDecl d => .obj [("ClassDecl", d.toJson)]
  | .expr e span => .obj [("Expression", .obj [("expression", e.toJson), ("span", span.toJson)])]
  | .cond c t none span =>
    .obj [("If", .obj [("condition", c.toJson), ("then_branch", t.toJson),
      ("else_branch", .null), ("span", span.toJson)])]
  | .cond c t (some e) span =>
    .obj [("If", .obj [("condition", c.toJson), ("then_branch", t.toJson),
      ("else_branch", e.toJson), ("span", span.toJson)])]
  | .loop c body span =>
    .obj [("While", .obj [("condition", c.toJson), ("body", body.toJson), ("span", span.toJson)])]
  | .ret value span =>
    .obj [("Return", .obj [("value", .ofOption Expr.toJson value), ("span", span.toJson)])]
  | .block b => .obj [("Block", b.toJson)]
  | .empty span => .obj [("Empty", span.toJson)]

def Stmt.listToJson : List Stmt → List Json
  | [] => []
  | s :: ss => s.toJson :: Stmt.listToJson ss

def Block.toJson : Block → Json
  | ⟨statements, span⟩ =>
    .obj [("statements", .arr (Stmt.listToJson statements)), ("span", span.toJson)]

def FunDecl.toJson : FunDecl → Json
  | ⟨name, params, returns, body, span⟩ =>
    .obj [("name", name.toJson), ("params", .ofList Param.toJson params),
      ("return_type", .ofOption TypeExpr.toJson returns), ("body", body.toJson),
      ("span", span.toJson)]

def MethodDecl.toJson : MethodDecl → Json
  | ⟨metadata, visibility, isAbstract, isStatic, name, params, returns, body, span⟩ =>
    .obj [("metadata", .ofList Metadata.toJson metadata),
      ("visibility", visibility.toJson),
      ("is_abstract", .bool isAbstract),
      ("is_static", .bool isStatic),
      ("name", name.toJson),
      ("params", .ofList Param.toJson params),
      ("return_type", .ofOption TypeExpr.toJson returns),
      ("body", Block.optionToJson body),
      ("span", span.toJson)]

def Block.optionToJson : Option Block → Json
  | none => .null
  | some b => b.toJson

def CtorDecl.toJson : CtorDecl → Json
  | ⟨params, body, span⟩ =>
    .obj [("params", .ofList Param.toJson params), ("body", body.toJson), ("span", span.toJson)]

def Member.toJson : Member → Json
  | .field d => .obj [("Field", d.toJson)]
  | .method d => .obj [("Method", d.toJson)]
  | .ctor d => .obj [("Constructor", d.toJson)]

def Member.listToJson : List Member → List Json
  | [] => []
  | m :: ms => m.toJson :: Member.listToJson ms

def ClassDecl.toJson : ClassDecl → Json
  | ⟨metadata, isAbstract, name, superclass, members, span⟩ =>
    .obj [("metadata", .ofList Metadata.toJson metadata),
      ("is_abstract", .bool isAbstract),
      ("name", name.toJson),
      ("extends", .ofOption Ident.toJson superclass),
      ("members", .arr (Member.listToJson members)),
      ("span", span.toJson)]

end

def Module.toJson (m : Module) : Json :=
  .obj [("statements", .arr (Stmt.listToJson m.statements)), ("span", m.span.toJson)]

end FieldPromotion
