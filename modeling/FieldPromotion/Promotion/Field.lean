import FieldPromotion.Options
import FieldPromotion.Promotion.Role

/-!
# Promoted fields

The field that an argument field stands for, the assignment that initializes it, and the place of
both in the class.
-/

namespace FieldPromotion

/-! ## §1 Fields and parameters -/

/-- The field of a parameter. It takes over the annotations. -/
def Param.toField (p : Param) (c : Candidate) (defaultVisibility : Visibility) : FieldDecl where
  metadata := p.metadata
  visibility := c.visibilityOr defaultVisibility
  storage := c.storage
  isStatic := false
  name := p.name
  type := p.type
  init := none
  span := p.span

/-- A parameter whose annotations and modifiers have moved to its field. -/
def Param.stripped (p : Param) : Param :=
  { p with metadata := [], modifiers := [] }

/-- What is reported of a promoted field. -/
structure FieldSummary where
  name : String
  storage : Storage
  visibility : Visibility
  span : Span
  deriving DecidableEq, Inhabited

def FieldDecl.summary (d : FieldDecl) : FieldSummary where
  name := d.name.name
  storage := d.storage
  visibility := d.visibility
  span := d.name.span

/-! ## §2 Assignments -/

/-- The statement `this.p = p;` for a parameter name, every part of it at the span of the name. -/
def fieldAssignment (p : Ident) : Stmt :=
  .expr (.assign (.member (.thisRef p.span) p p.span) (.ident p) p.span) p.span

/-- Where assignments are put into a body: after a leading `super(...)`, else at the start. -/
def assignmentPoint (body : List Stmt) : Nat :=
  match body with
  | s :: _ => if s.isSuperCall then 1 else 0
  | [] => 0

/-- A body with statements put in at a position. -/
def insertAt {α : Type} (xs : List α) (i : Nat) (new : List α) : List α :=
  xs.take i ++ new ++ xs.drop i

/-- A body that starts with the assignments of the named parameters, as far as it can. -/
def assigning (names : List Ident) (body : List Stmt) : List Stmt :=
  insertAt body (assignmentPoint body) (names.map fieldAssignment)

/-- A constructor that assigns the named parameters to the fields of the same names. -/
def CtorDecl.assignFields (c : CtorDecl) (names : List Ident) : CtorDecl :=
  { c with body := { c.body with statements := assigning names c.body.statements } }

/-! ## §3 Members -/

/-- Where new fields are put: after the last field or before the first one, and at the start of a
class without fields. -/
def fieldPoint (order : FieldOrder) (members : List Member) : Nat :=
  match order with
  | .append =>
    match members.reverse.findIdx? Member.isField with
    | some i => members.length - i
    | none => 0
  | .prepend => (members.findIdx? Member.isField).getD 0

/-- Members with new fields put in. -/
def insertFields (order : FieldOrder) (fields : List FieldDecl) (members : List Member) :
    List Member :=
  insertAt members (fieldPoint order members) (fields.map .field)

end FieldPromotion
