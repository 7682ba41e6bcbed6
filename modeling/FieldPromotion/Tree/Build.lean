import FieldPromotion.Tree.Stmt

/-!
# Building trees

Short ways to make nodes without spelling out every part. What is built here has the default span,
unless one is given.
-/

namespace FieldPromotion

/-! ## §1 Types and expressions -/

/-- The type annotation with the given name: a built-in type, or else a type of the program. -/
def TypeExpr.ofName (name : String) : TypeExpr :=
  match Primitive.all.find? (·.name == name) with
  | some p => .primitive p {}
  | none => .named { name } {}

namespace Expr

/-- A use of a name. -/
def name (n : String) : Expr :=
  .ident { name := n }

/-- The property `this.n`. -/
def thisDot (n : String) : Expr :=
  .member (.thisRef {}) { name := n } {}

end Expr

/-! ## §2 Parameters -/

namespace Param

/-- A plain parameter. -/
def named (n : String) : Param :=
  { name := { name := n } }

/-- Adds a modifier after the others, at the span the parameter has now. -/
def withModifier (p : Param) (k : Keyword) : Param :=
  { p with modifiers := p.modifiers ++ [{ keyword := k, span := p.span }] }

/-- Adds an annotation after the others. -/
def withMetadata (p : Param) (m : Metadata) : Param :=
  { p with metadata := p.metadata ++ [m] }

/-- Gives a parameter and its name a span. Modifiers that it has already keep theirs. -/
def atSpan (p : Param) (s : Span) : Param :=
  { p with span := s, name := { p.name with span := s } }

end Param

/-! ## §3 Statements -/

namespace Stmt

/-- An expression as a statement, at the span of the expression. -/
def ofExpr (e : Expr) : Stmt :=
  .expr e e.span

/-- The statement `target = value;`. -/
def assign (target value : Expr) : Stmt :=
  ofExpr (.assign target value {})

/-- The statement `super(args);`. -/
def superCall (args : List Expr) : Stmt :=
  ofExpr (.call (.superRef {}) args {})

/-- The statement `callee(args);`. -/
def call (callee : String) (args : List Expr) : Stmt :=
  ofExpr (.call (.name callee) args {})

end Stmt

/-- The block of the given statements. -/
def Block.ofList (statements : List Stmt) : Block :=
  ⟨statements, {}⟩

/-- A function without return type. -/
def FunDecl.make (name : String) (params : List Param) (body : List Stmt) : FunDecl :=
  ⟨{ name }, params, none, .ofList body, {}⟩

/-! ## §4 Classes -/

/-- A field that is not static and has no initial value. -/
def FieldDecl.make (storage : Storage) (visibility : Visibility) (name : String)
    (type : Option String) : FieldDecl :=
  { storage, visibility, name := { name }, type := type.map TypeExpr.ofName }

/-- A public method with a body. -/
def MethodDecl.make (name : String) (params : List Param) (body : List Stmt) : MethodDecl :=
  ⟨[], .pub, false, false, { name }, params, none, some (.ofList body), {}⟩

/-- A constructor. -/
def CtorDecl.make (params : List Param) (body : List Stmt) : CtorDecl :=
  ⟨params, .ofList body, {}⟩

namespace ClassDecl

/-- A concrete class without superclass and members. -/
def named (n : String) : ClassDecl :=
  ⟨[], false, { name := n }, none, [], {}⟩

/-- Adds a member after the others. -/
def withMember (c : ClassDecl) (m : Member) : ClassDecl :=
  { c with members := c.members ++ [m] }

/-- Gives a class and its name a span. -/
def atSpan (c : ClassDecl) (s : Span) : ClassDecl :=
  { c with span := s, name := { c.name with span := s } }

end ClassDecl

end FieldPromotion
