import FieldPromotion.Error

/-!
# Where argument fields may stand

Only the constructor of a concrete class that stands directly in the module may have parameters
with modifiers. Every other parameter with a modifier is an error, wherever it is nested.

The check goes through a module once, in source order. On its way it keeps the classes that it is
inside of, the position of the statement of the module that it is in, and whether the class that
comes next stands directly in the module.
-/

namespace FieldPromotion

/-! ## §1 Parameters out of place -/

/-- The error of a parameter that may not have modifiers. -/
def Param.misplaced? (place : Place) (p : Param) : Option Error :=
  if p.hasStorage then some (.misplacedField p.name.name place p.span)
  else
    match p.modifiers with
    | [] => none
    | stray :: _ => some (.modifierWithoutStorage p.name.name stray.keyword stray.span)

/-! ## §2 The check in the course of a traversal -/

/-- What the check finds: the errors in source order, and the positions of the classes of the module
that have errors somewhere inside. -/
structure ContextReport where
  errors : List Error := []
  failed : List Nat := []
  deriving DecidableEq, Inhabited

/-- A class that the check is inside of. -/
structure ClassFrame where
  name : String
  isAbstract : Bool
  topLevel : Bool
  deriving DecidableEq, Inhabited

/-- The check on its way through a module. -/
structure Enforcer where
  report : ContextReport := {}
  /-- The classes around the node at hand, innermost first. -/
  classes : List ClassFrame := []
  /-- The position in the module of the statement at hand. -/
  position : Nat := 0
  /-- Set right before a class that stands directly in the module. -/
  nextTopLevel : Bool := false
  deriving DecidableEq, Inhabited

/-- The place of a constructor of a class, unless its parameters may be argument fields. -/
def ClassFrame.ctorPlace? (f : ClassFrame) : Option Place :=
  if f.isAbstract then some (.abstractCtor f.name)
  else if f.topLevel then none
  else some (.localCtor f.name)

namespace Enforcer

/-- Whether the outermost class stands directly in the module. -/
def inTopLevel (e : Enforcer) : Bool :=
  e.classes.getLast?.any ClassFrame.topLevel

/-- Reports an error, and notes the statement at hand if it is a class. -/
def push (e : Enforcer) (error : Error) : Enforcer :=
  { e with report :=
    { errors := e.report.errors ++ [error]
      failed :=
        if e.inTopLevel && !e.report.failed.contains e.position then e.report.failed ++ [e.position]
        else e.report.failed } }

/-- Rejects every modifier in a parameter list. -/
def rejectModifiers (e : Enforcer) (place : Place) (ps : List Param) : Enforcer :=
  ps.foldl (fun e p =>
    match p.misplaced? place with
    | some error => e.push error
    | none => e) e

/-- The name of the innermost class. -/
def className (e : Enforcer) : String :=
  (e.classes.head?.map ClassFrame.name).getD ""

/-- Comes to a function. -/
def enterFunction (e : Enforcer) (name : String) (params : List Param) : Enforcer :=
  { e with nextTopLevel := false }.rejectModifiers (.function name) params

/-- Comes to a method. -/
def enterMethod (e : Enforcer) (name : String) (params : List Param) : Enforcer :=
  e.rejectModifiers (.method e.className name) params

/-- Comes to a constructor. Those of concrete classes directly in the module are left alone. -/
def enterCtor (e : Enforcer) (params : List Param) : Enforcer :=
  match e.classes.head?.bind ClassFrame.ctorPlace? with
  | some place => e.rejectModifiers place params
  | none => e

/-- Goes into a class, which uses up the note that it stands directly in the module. -/
def enterClass (e : Enforcer) (name : String) (isAbstract : Bool) : Enforcer :=
  { e with
    nextTopLevel := false
    classes := { name, isAbstract, topLevel := e.nextTopLevel } :: e.classes }

def leaveClass (e : Enforcer) : Enforcer :=
  { e with classes := e.classes.tail }

-- There are no parameters inside of expressions, types and annotations, so the check has nothing to
-- do there.
mutual

/-- Goes through a statement. -/
def visitStmt (e : Enforcer) : Stmt → Enforcer
  | .varDecl _ => e
  | .funDecl ⟨name, params, _, ⟨statements, _⟩, _⟩ =>
    (e.enterFunction name.name params).visitStmts statements
  | .classDecl ⟨_, isAbstract, name, _, members, _⟩ =>
    ((e.enterClass name.name isAbstract).visitMembers members).leaveClass
  | .expr _ _ => e
  | .cond _ t none _ => e.visitStmt t
  | .cond _ t (some other) _ => (e.visitStmt t).visitStmt other
  | .loop _ body _ => e.visitStmt body
  | .ret _ _ => e
  | .block ⟨statements, _⟩ => e.visitStmts statements
  | .empty _ => e

/-- Goes through several statements. -/
def visitStmts (e : Enforcer) : List Stmt → Enforcer
  | [] => e
  | s :: ss => (e.visitStmt s).visitStmts ss

/-- Goes through a member of a class. -/
def visitMember (e : Enforcer) : Member → Enforcer
  | .field _ => e
  | .method ⟨_, _, _, _, name, params, _, none, _⟩ => e.enterMethod name.name params
  | .method ⟨_, _, _, _, name, params, _, some ⟨statements, _⟩, _⟩ =>
    (e.enterMethod name.name params).visitStmts statements
  | .ctor ⟨params, ⟨statements, _⟩, _⟩ => (e.enterCtor params).visitStmts statements

/-- Goes through several members of a class. -/
def visitMembers (e : Enforcer) : List Member → Enforcer
  | [] => e
  | m :: ms => (e.visitMember m).visitMembers ms

end

/-- Goes through a statement that stands directly in the module. -/
def visitTop (e : Enforcer) (s : Stmt × Nat) : Enforcer :=
  { e with position := s.2, nextTopLevel := s.1.class?.isSome }.visitStmt s.1

end Enforcer

/-- Checks every parameter list in a module for misplaced modifiers. -/
def Module.checkContexts (m : Module) : ContextReport :=
  (m.statements.zipIdx.foldl Enforcer.visitTop {}).report

end FieldPromotion
