import FieldPromotion.Tree.Expr
import FieldPromotion.Tree.TypeExpr

/-!
# Statements, classes and modules

Parameters and fields are plain records. Statements, blocks, functions, classes and class members
contain each other, so they are declared together: a class may be declared inside a method, and a
method inside such a class.
-/

namespace FieldPromotion

/-! ## §1 Keywords -/

/-- Whether a variable can be assigned again (`var`) or not (`final`). -/
inductive Storage where
  | var
  | final
  deriving DecidableEq, Inhabited

def Storage.keyword : Storage → String
  | .var => "var"
  | .final => "final"

/-- Who may use a class member. -/
inductive Visibility where
  | pub
  | priv
  deriving DecidableEq

/-- Members are private unless something else is said. -/
instance : Inhabited Visibility := ⟨.priv⟩

def Visibility.keyword : Visibility → String
  | .pub => "public"
  | .priv => "private"

/-- The keywords that may stand in front of a parameter. -/
inductive Keyword where
  | storage (kind : Storage)
  | visibility (kind : Visibility)
  | static
  deriving DecidableEq, Inhabited

namespace Keyword

/-- How a keyword is written. -/
def text : Keyword → String
  | .storage kind => kind.keyword
  | .visibility kind => kind.keyword
  | .static => "static"

/-- All keywords, in the order they are listed to the user. -/
def all : List Keyword :=
  [.storage .var, .storage .final, .visibility .pub, .visibility .priv, .static]

def isStorage : Keyword → Bool
  | .storage _ => true
  | _ => false

def isVisibility : Keyword → Bool
  | .visibility _ => true
  | _ => false

end Keyword

/-! ## §2 Parameters and fields -/

/-- A keyword in front of a parameter, with its span. -/
structure Modifier where
  keyword : Keyword
  span : Span := {}
  deriving DecidableEq, Inhabited

/-- An annotation `@name(args)` on a class, a member or a parameter. -/
structure Metadata where
  name : Ident
  args : List Expr := []
  span : Span := {}
  deriving Inhabited

/-- A parameter of a function, method or constructor. -/
structure Param where
  metadata : List Metadata := []
  modifiers : List Modifier := []
  name : Ident
  type : Option TypeExpr := none
  defaultValue : Option Expr := none
  span : Span := {}
  deriving Inhabited

/-- Whether a keyword is among the modifiers of a parameter. -/
def Param.hasModifier (p : Param) (k : Keyword) : Bool :=
  p.modifiers.any (·.keyword == k)

/-- Whether a parameter is written with `var` or `final`. -/
def Param.hasStorage (p : Param) : Bool :=
  p.modifiers.any (·.keyword.isStorage)

/-- A variable declaration. -/
structure VarDecl where
  storage : Storage
  name : Ident
  type : Option TypeExpr := none
  init : Option Expr := none
  span : Span := {}
  deriving Inhabited

/-- A field of a class. -/
structure FieldDecl where
  metadata : List Metadata := []
  visibility : Visibility
  storage : Storage
  isStatic : Bool := false
  name : Ident
  type : Option TypeExpr := none
  init : Option Expr := none
  span : Span := {}
  deriving Inhabited

/-! ## §3 Statements and classes -/

mutual

/-- A statement. -/
inductive Stmt where
  | varDecl (decl : VarDecl)
  | funDecl (decl : FunDecl)
  | classDecl (decl : ClassDecl)
  | expr (expression : Expr) (span : Span)
  | cond (condition : Expr) (thenBranch : Stmt) (elseBranch : Option Stmt) (span : Span)
  | loop (condition : Expr) (body : Stmt) (span : Span)
  | ret (value : Option Expr) (span : Span)
  | block (body : Block)
  | empty (span : Span)

/-- A statement list in braces. -/
structure Block where
  statements : List Stmt
  span : Span

/-- A function declaration. -/
structure FunDecl where
  name : Ident
  params : List Param
  returns : Option TypeExpr
  body : Block
  span : Span

/-- A method of a class; an abstract method has no body. -/
structure MethodDecl where
  metadata : List Metadata
  visibility : Visibility
  isAbstract : Bool
  isStatic : Bool
  name : Ident
  params : List Param
  returns : Option TypeExpr
  body : Option Block
  span : Span

/-- A constructor of a class. -/
structure CtorDecl where
  params : List Param
  body : Block
  span : Span

/-- A member of a class. -/
inductive Member where
  | field (decl : FieldDecl)
  | method (decl : MethodDecl)
  | ctor (decl : CtorDecl)

/-- A class declaration; `superclass` is the name after `extends`. -/
structure ClassDecl where
  metadata : List Metadata
  isAbstract : Bool
  name : Ident
  superclass : Option Ident
  members : List Member
  span : Span

end

/-- A compilation unit: the statements of one file. -/
structure Module where
  statements : List Stmt := []
  span : Span := {}

instance : Inhabited Stmt := ⟨.empty {}⟩

/-! ## §4 Questions about a node -/

namespace Stmt

/-- The span of a statement. -/
def span : Stmt → Span
  | .varDecl d => d.span
  | .funDecl d => d.span
  | .classDecl d => d.span
  | .expr _ s => s
  | .cond _ _ _ s => s
  | .loop _ _ s => s
  | .ret _ s => s
  | .block b => b.span
  | .empty s => s

/-- Variables, functions and classes are declarations. -/
def isDeclaration : Stmt → Bool
  | .varDecl _ => true
  | .funDecl _ => true
  | .classDecl _ => true
  | _ => false

/-- Whether a statement is a call `super(...)`. -/
def isSuperCall : Stmt → Bool
  | .expr (.call (.superRef _) _ _) _ => true
  | _ => false

/-- The class that a statement declares. -/
def class? : Stmt → Option ClassDecl
  | .classDecl d => some d
  | _ => none

end Stmt

namespace Member

/-- The span of a member. -/
def span : Member → Span
  | .field d => d.span
  | .method d => d.span
  | .ctor d => d.span

def isField : Member → Bool
  | .field _ => true
  | _ => false

def field? : Member → Option FieldDecl
  | .field d => some d
  | _ => none

def ctor? : Member → Option CtorDecl
  | .ctor d => some d
  | _ => none

end Member

/-- The fields of a class in source order. -/
def ClassDecl.fields (c : ClassDecl) : List FieldDecl :=
  c.members.filterMap Member.field?

/-- The constructors of a class in source order. -/
def ClassDecl.ctors (c : ClassDecl) : List CtorDecl :=
  c.members.filterMap Member.ctor?

/-- The classes declared directly in a module, in source order. -/
def Module.classes (m : Module) : List ClassDecl :=
  m.statements.filterMap Stmt.class?

end FieldPromotion
