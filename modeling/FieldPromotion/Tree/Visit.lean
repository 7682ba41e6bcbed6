import FieldPromotion.Tree.Stmt

/-!
# Visiting the nodes of a tree

A visit names a node that a traversal comes to. `Module.visits` lists all visits of a module: each
node stands before its parts, and the parts of a node stand in source order. A traversal may be told
not to go below nodes of some kinds.
-/

namespace FieldPromotion

/-! ## §1 Visits -/

/-- The kinds of nodes that a traversal comes to. -/
inductive VisitKind where
  | module
  | stmt
  | varDecl
  | funDecl
  | classDecl
  | fieldDecl
  | methodDecl
  | ctorDecl
  | param
  | metadata
  | block
  | expr
  | typeExpr
  | ident
  deriving DecidableEq, Inhabited

/-- A node that a traversal comes to. -/
inductive Visit where
  | module (m : Module)
  | stmt (s : Stmt)
  | varDecl (d : VarDecl)
  | funDecl (d : FunDecl)
  | classDecl (d : ClassDecl)
  | fieldDecl (d : FieldDecl)
  | methodDecl (d : MethodDecl)
  | ctorDecl (d : CtorDecl)
  | param (p : Param)
  | metadata (m : Metadata)
  | block (b : Block)
  | expr (e : Expr)
  | typeExpr (t : TypeExpr)
  | ident (id : Ident)

namespace Visit

/-- The kind of the node. -/
def kind : Visit → VisitKind
  | .module _ => .module
  | .stmt _ => .stmt
  | .varDecl _ => .varDecl
  | .funDecl _ => .funDecl
  | .classDecl _ => .classDecl
  | .fieldDecl _ => .fieldDecl
  | .methodDecl _ => .methodDecl
  | .ctorDecl _ => .ctorDecl
  | .param _ => .param
  | .metadata _ => .metadata
  | .block _ => .block
  | .expr _ => .expr
  | .typeExpr _ => .typeExpr
  | .ident _ => .ident

/-- The identifier that is visited. -/
def ident? : Visit → Option Ident
  | .ident id => some id
  | _ => none

/-- A visit followed by the visits of its parts, if the traversal goes below nodes of its kind. -/
def andBelow (enter : VisitKind → Bool) (v : Visit) (parts : List Visit) : List Visit :=
  v :: if enter v.kind then parts else []

end Visit

/-! ## §2 Types and expressions -/

namespace TypeExpr

mutual

/-- The visits of a type annotation. -/
def visits (enter : VisitKind → Bool) : TypeExpr → List Visit
  | .primitive kind span => Visit.andBelow enter (.typeExpr (.primitive kind span)) []
  | .named name span => Visit.andBelow enter (.typeExpr (.named name span)) [.ident name]
  | .applied name args span =>
    Visit.andBelow enter (.typeExpr (.applied name args span)) (.ident name :: visitsAll enter args)
  | .array element span =>
    Visit.andBelow enter (.typeExpr (.array element span)) (element.visits enter)

/-- The visits of several annotations. -/
def visitsAll (enter : VisitKind → Bool) : List TypeExpr → List Visit
  | [] => []
  | t :: ts => t.visits enter ++ visitsAll enter ts

end

end TypeExpr

namespace Expr

mutual

/-- The visits of an expression. -/
def visits (enter : VisitKind → Bool) : Expr → List Visit
  | .ident id => Visit.andBelow enter (.expr (.ident id)) [.ident id]
  | .member object property span =>
    Visit.andBelow enter (.expr (.member object property span))
      (object.visits enter ++ [.ident property])
  | .call callee arguments span =>
    Visit.andBelow enter (.expr (.call callee arguments span))
      (callee.visits enter ++ visitsAll enter arguments)
  | .assign target value span =>
    Visit.andBelow enter (.expr (.assign target value span))
      (target.visits enter ++ value.visits enter)
  | .int value span => [.expr (.int value span)]
  | .float value span => [.expr (.float value span)]
  | .string value span => [.expr (.string value span)]
  | .bool value span => [.expr (.bool value span)]
  | .null span => [.expr (.null span)]
  | .thisRef span => [.expr (.thisRef span)]
  | .superRef span => [.expr (.superRef span)]

/-- The visits of several expressions. -/
def visitsAll (enter : VisitKind → Bool) : List Expr → List Visit
  | [] => []
  | e :: es => e.visits enter ++ visitsAll enter es

end

end Expr

/-- The visits of a part that may be absent. -/
def Visit.ofOption {α : Type} (visits : α → List Visit) : Option α → List Visit
  | none => []
  | some a => visits a

/-! ## §3 Parameters and fields -/

def Metadata.visits (enter : VisitKind → Bool) (m : Metadata) : List Visit :=
  Visit.andBelow enter (.metadata m) (.ident m.name :: Expr.visitsAll enter m.args)

def Param.visits (enter : VisitKind → Bool) (p : Param) : List Visit :=
  Visit.andBelow enter (.param p)
    (p.metadata.flatMap (Metadata.visits enter) ++ [.ident p.name]
      ++ Visit.ofOption (TypeExpr.visits enter) p.type
      ++ Visit.ofOption (Expr.visits enter) p.defaultValue)

def VarDecl.visits (enter : VisitKind → Bool) (d : VarDecl) : List Visit :=
  Visit.andBelow enter (.varDecl d)
    ([.ident d.name]
      ++ Visit.ofOption (TypeExpr.visits enter) d.type
      ++ Visit.ofOption (Expr.visits enter) d.init)

def FieldDecl.visits (enter : VisitKind → Bool) (d : FieldDecl) : List Visit :=
  Visit.andBelow enter (.fieldDecl d)
    (d.metadata.flatMap (Metadata.visits enter) ++ [.ident d.name]
      ++ Visit.ofOption (TypeExpr.visits enter) d.type
      ++ Visit.ofOption (Expr.visits enter) d.init)

/-! ## §4 Statements and classes -/

mutual

/-- The visits of a statement. -/
def Stmt.visits (enter : VisitKind → Bool) : Stmt → List Visit
  | .varDecl d => Visit.andBelow enter (.stmt (.varDecl d)) (d.visits enter)
  | .funDecl d => Visit.andBelow enter (.stmt (.funDecl d)) (d.visits enter)
  | .classDecl d => Visit.andBelow enter (.stmt (.classDecl d)) (d.visits enter)
  | .expr e span => Visit.andBelow enter (.stmt (.expr e span)) (e.visits enter)
  | .cond c t none span =>
    Visit.andBelow enter (.stmt (.cond c t none span)) (c.visits enter ++ t.visits enter)
  | .cond c t (some e) span =>
    Visit.andBelow enter (.stmt (.cond c t (some e) span))
      (c.visits enter ++ t.visits enter ++ e.visits enter)
  | .loop c body span =>
    Visit.andBelow enter (.stmt (.loop c body span)) (c.visits enter ++ body.visits enter)
  | .ret value span =>
    Visit.andBelow enter (.stmt (.ret value span)) (Visit.ofOption (Expr.visits enter) value)
  | .block b => Visit.andBelow enter (.stmt (.block b)) (b.visits enter)
  | .empty span => [.stmt (.empty span)]

/-- The visits of several statements. -/
def Stmt.visitsAll (enter : VisitKind → Bool) : List Stmt → List Visit
  | [] => []
  | s :: ss => s.visits enter ++ Stmt.visitsAll enter ss

def Block.visits (enter : VisitKind → Bool) : Block → List Visit
  | ⟨statements, span⟩ =>
    Visit.andBelow enter (.block ⟨statements, span⟩) (Stmt.visitsAll enter statements)

def FunDecl.visits (enter : VisitKind → Bool) : FunDecl → List Visit
  | ⟨name, params, returns, body, span⟩ =>
    Visit.andBelow enter (.funDecl ⟨name, params, returns, body, span⟩)
      ([.ident name] ++ params.flatMap (Param.visits enter)
        ++ Visit.ofOption (TypeExpr.visits enter) returns ++ body.visits enter)

def MethodDecl.visits (enter : VisitKind → Bool) : MethodDecl → List Visit
  | ⟨metadata, visibility, isAbstract, isStatic, name, params, returns, none, span⟩ =>
    Visit.andBelow enter (.methodDecl
        ⟨metadata, visibility, isAbstract, isStatic, name, params, returns, none, span⟩)
      (metadata.flatMap (Metadata.visits enter) ++ [.ident name]
        ++ params.flatMap (Param.visits enter)
        ++ Visit.ofOption (TypeExpr.visits enter) returns)
  | ⟨metadata, visibility, isAbstract, isStatic, name, params, returns, some body, span⟩ =>
    Visit.andBelow enter (.methodDecl
        ⟨metadata, visibility, isAbstract, isStatic, name, params, returns, some body, span⟩)
      (metadata.flatMap (Metadata.visits enter) ++ [.ident name]
        ++ params.flatMap (Param.visits enter)
        ++ Visit.ofOption (TypeExpr.visits enter) returns ++ body.visits enter)

def CtorDecl.visits (enter : VisitKind → Bool) : CtorDecl → List Visit
  | ⟨params, body, span⟩ =>
    Visit.andBelow enter (.ctorDecl ⟨params, body, span⟩)
      (params.flatMap (Param.visits enter) ++ body.visits enter)

def Member.visits (enter : VisitKind → Bool) : Member → List Visit
  | .field d => d.visits enter
  | .method d => d.visits enter
  | .ctor d => d.visits enter

/-- The visits of several class members. -/
def Member.visitsAll (enter : VisitKind → Bool) : List Member → List Visit
  | [] => []
  | m :: ms => m.visits enter ++ Member.visitsAll enter ms

def ClassDecl.visits (enter : VisitKind → Bool) : ClassDecl → List Visit
  | ⟨metadata, isAbstract, name, superclass, members, span⟩ =>
    Visit.andBelow enter (.classDecl ⟨metadata, isAbstract, name, superclass, members, span⟩)
      (metadata.flatMap (Metadata.visits enter) ++ [.ident name]
        ++ Visit.ofOption (fun s => [.ident s]) superclass ++ Member.visitsAll enter members)

end

namespace Module

/-- All visits of a module; `enter` says below which kinds of nodes the traversal goes. -/
def visits (enter : VisitKind → Bool) (m : Module) : List Visit :=
  Visit.andBelow enter (.module m) (Stmt.visitsAll enter m.statements)

/-- The identifiers of a module in source order. -/
def identifiers (m : Module) : List Ident :=
  (m.visits fun _ => true).filterMap Visit.ident?

end Module

end FieldPromotion
