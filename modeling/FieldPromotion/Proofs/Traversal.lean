import FieldPromotion.Proofs.Parameters
import FieldPromotion.Tree.Visit

/-!
# Traversals reach all parameters

A traversal that goes below every node comes to every parameter of a module, however deep it is
nested, and to each of them once, in source order.
-/

namespace FieldPromotion

/-! ## §1 Visits of several nodes -/

/-- The arguments of a type are visited one by one. -/
theorem TypeExpr.visitsAll_eq (enter : VisitKind → Bool) (ts : List TypeExpr) :
    TypeExpr.visitsAll enter ts = ts.flatMap (TypeExpr.visits enter) := by
  induction ts with
  | nil => rfl
  | cons t ts ih => rw [TypeExpr.visitsAll, ih, List.flatMap_cons]

/-- The arguments of a call are visited one by one. -/
theorem Expr.visitsAll_eq (enter : VisitKind → Bool) (es : List Expr) :
    Expr.visitsAll enter es = es.flatMap (Expr.visits enter) := by
  induction es with
  | nil => rfl
  | cons e es ih => rw [Expr.visitsAll, ih, List.flatMap_cons]

/-- The statements of a body are visited one by one. -/
theorem Stmt.visitsAll_eq (enter : VisitKind → Bool) (ss : List Stmt) :
    Stmt.visitsAll enter ss = ss.flatMap (Stmt.visits enter) := by
  induction ss with
  | nil => rfl
  | cons s ss ih => rw [Stmt.visitsAll, ih, List.flatMap_cons]

/-- The members of a class are visited one by one. -/
theorem Member.visitsAll_eq (enter : VisitKind → Bool) (ms : List Member) :
    Member.visitsAll enter ms = ms.flatMap (Member.visits enter) := by
  induction ms with
  | nil => rfl
  | cons m ms ih => rw [Member.visitsAll, ih, List.flatMap_cons]

/-! ## §2 Parameters among visits -/

namespace Visit

/-- The parameter that is visited. -/
def param? : Visit → Option Param
  | .param p => some p
  | _ => none

/-- The parameters among visits. -/
def params (vs : List Visit) : List Param :=
  vs.filterMap param?

/-- A traversal that goes below all nodes. -/
def everywhere : VisitKind → Bool :=
  fun _ => true

@[simp] theorem params_nil : params [] = [] := rfl

/-- Parameters are met in the order of the visits. -/
@[simp] theorem params_append (vs ws : List Visit) : params (vs ++ ws) = params vs ++ params ws :=
  List.filterMap_append

@[simp] theorem params_cons (v : Visit) (vs : List Visit) :
    params (v :: vs) = v.param?.toList ++ params vs := by
  rw [params, List.filterMap_cons]
  cases v.param? <;> rfl

/-- A node that is a parameter is met before what is below it. -/
@[simp] theorem params_andBelow (v : Visit) (parts : List Visit) :
    params (v.andBelow everywhere parts) = v.param?.toList ++ params parts :=
  params_cons v parts

/-- Visiting several nodes meets the parameters of each of them in turn. -/
theorem params_flatMap {α : Type} (f : α → List Visit) (xs : List α) :
    params (xs.flatMap f) = xs.flatMap fun x => params (f x) :=
  List.filterMap_flatMap

/-- A node without parameters has none when it is left out either. -/
theorem params_ofOption {α : Type} {f : α → List Visit} (hf : ∀ x, params (f x) = [])
    (x : Option α) : params (Visit.ofOption f x) = [] := by
  cases x with
  | none => rfl
  | some x => exact hf x

end Visit

/-! ## §3 Nodes without parameters -/

mutual

/-- There are no parameters in a type. -/
theorem TypeExpr.params_visits : (t : TypeExpr) → Visit.params (t.visits Visit.everywhere) = []
  | .primitive _ _ => by simp [TypeExpr.visits, Visit.param?]
  | .named _ _ => by simp [TypeExpr.visits, Visit.param?]
  | .applied _ args _ => by simp [TypeExpr.visits, Visit.param?, TypeExpr.params_visitsAll args]
  | .array element _ => by simp [TypeExpr.visits, Visit.param?, TypeExpr.params_visits element]

/-- Nor are there any in the arguments of a type. -/
theorem TypeExpr.params_visitsAll : (ts : List TypeExpr) →
    Visit.params (TypeExpr.visitsAll Visit.everywhere ts) = []
  | [] => by simp [TypeExpr.visitsAll]
  | t :: ts => by
    simp [TypeExpr.visitsAll, TypeExpr.params_visits t, TypeExpr.params_visitsAll ts]

end

mutual

/-- There are no parameters in an expression: it has neither functions nor classes inside. -/
theorem Expr.params_visits : (e : Expr) → Visit.params (e.visits Visit.everywhere) = []
  | .ident _ => by simp [Expr.visits, Visit.param?]
  | .member object _ _ => by simp [Expr.visits, Visit.param?, Expr.params_visits object]
  | .call callee arguments _ => by
    simp [Expr.visits, Visit.param?, Expr.params_visits callee, Expr.params_visitsAll arguments]
  | .assign target value _ => by
    simp [Expr.visits, Visit.param?, Expr.params_visits target, Expr.params_visits value]
  | .int _ _ => by simp [Expr.visits, Visit.param?]
  | .float _ _ => by simp [Expr.visits, Visit.param?]
  | .string _ _ => by simp [Expr.visits, Visit.param?]
  | .bool _ _ => by simp [Expr.visits, Visit.param?]
  | .null _ => by simp [Expr.visits, Visit.param?]
  | .thisRef _ => by simp [Expr.visits, Visit.param?]
  | .superRef _ => by simp [Expr.visits, Visit.param?]

/-- Nor are there any in the arguments of a call. -/
theorem Expr.params_visitsAll : (es : List Expr) →
    Visit.params (Expr.visitsAll Visit.everywhere es) = []
  | [] => by simp [Expr.visitsAll]
  | e :: es => by simp [Expr.visitsAll, Expr.params_visits e, Expr.params_visitsAll es]

end

/-- There are no parameters in an annotation. -/
theorem Metadata.params_visits (m : Metadata) :
    Visit.params (m.visits Visit.everywhere) = [] := by
  simp [Metadata.visits, Visit.param?, Expr.params_visitsAll]

@[simp] theorem Metadata.params_flatMap_visits (ms : List Metadata) :
    Visit.params (ms.flatMap (Metadata.visits Visit.everywhere)) = [] := by
  simp [Visit.params_flatMap, Metadata.params_visits]

@[simp] theorem TypeExpr.params_visits_option (t : Option TypeExpr) :
    Visit.params (Visit.ofOption (TypeExpr.visits Visit.everywhere) t) = [] :=
  Visit.params_ofOption TypeExpr.params_visits t

@[simp] theorem Expr.params_visits_option (e : Option Expr) :
    Visit.params (Visit.ofOption (Expr.visits Visit.everywhere) e) = [] :=
  Visit.params_ofOption Expr.params_visits e

/-- There are no parameters in a variable. -/
theorem VarDecl.params_visits (d : VarDecl) :
    Visit.params (d.visits Visit.everywhere) = [] := by
  simp [VarDecl.visits, Visit.param?]

/-- There are no parameters in a field. -/
theorem FieldDecl.params_visits (d : FieldDecl) :
    Visit.params (d.visits Visit.everywhere) = [] := by
  simp [FieldDecl.visits, Visit.param?]

/-- A parameter list is met as it stands. -/
@[simp] theorem Param.params_flatMap_visits (ps : List Param) :
    Visit.params (ps.flatMap (Param.visits Visit.everywhere)) = ps := by
  -- the default value of a parameter has no parameters in it
  have hone : ∀ p : Param, Visit.params (p.visits Visit.everywhere) = [p] := by
    intro p
    simp [Param.visits, Visit.param?]
  rw [Visit.params_flatMap]
  simp [hone]

/-! ## §4 Statements and classes -/

-- A traversal comes to the parameters of a declaration before it enters the body.
mutual

/-- A traversal of a statement comes to its parameters, at any depth. -/
theorem Stmt.params_visits : (s : Stmt) → Visit.params (s.visits Visit.everywhere) = s.params
  | .varDecl d => by simp [Stmt.visits, Stmt.params, Visit.param?, VarDecl.params_visits]
  | .funDecl ⟨_, params, _, ⟨statements, _⟩, _⟩ => by
    simp [Stmt.visits, FunDecl.visits, Block.visits, Stmt.params, Visit.param?,
      Stmt.params_visitsAll statements]
  | .classDecl ⟨_, _, _, superclass, members, _⟩ => by
    -- the name of the superclass is visited as a node of its own
    have hsup : Visit.params (Visit.ofOption (fun s => [.ident s]) superclass) = [] :=
      Visit.params_ofOption (fun _ => rfl) superclass
    simp [Stmt.visits, ClassDecl.visits, Stmt.params, Visit.param?, hsup,
      Member.params_visitsAll members]
  | .expr e _ => by simp [Stmt.visits, Stmt.params, Visit.param?, Expr.params_visits]
  -- the branches come in source order, after the condition
  | .cond c t none _ => by
    simp [Stmt.visits, Stmt.params, Visit.param?, Expr.params_visits, Stmt.params_visits t]
  | .cond c t (some e) _ => by
    simp [Stmt.visits, Stmt.params, Visit.param?, Expr.params_visits, Stmt.params_visits t,
      Stmt.params_visits e]
  | .loop c body _ => by
    simp [Stmt.visits, Stmt.params, Visit.param?, Expr.params_visits, Stmt.params_visits body]
  | .ret value _ => by simp [Stmt.visits, Stmt.params, Visit.param?]
  | .block ⟨statements, _⟩ => by
    simp [Stmt.visits, Block.visits, Stmt.params, Visit.param?, Stmt.params_visitsAll statements]
  | .empty _ => by simp [Stmt.visits, Stmt.params, Visit.param?]

/-- So does a traversal of several statements. -/
theorem Stmt.params_visitsAll : (ss : List Stmt) →
    Visit.params (Stmt.visitsAll Visit.everywhere ss) = Stmt.paramsAll ss
  | [] => by simp [Stmt.visitsAll, Stmt.paramsAll]
  | s :: ss => by
    simp [Stmt.visitsAll, Stmt.paramsAll, Stmt.params_visits s, Stmt.params_visitsAll ss]

/-- A traversal of a member comes to its own parameters and to those in its body. -/
theorem Member.params_visits : (m : Member) →
    Visit.params (m.visits Visit.everywhere) = m.params
  | .field d => by simp [Member.visits, Member.params, FieldDecl.params_visits]
  | .method ⟨_, _, _, _, _, params, _, none, _⟩ => by
    simp [Member.visits, MethodDecl.visits, Member.params, Visit.param?]
  | .method ⟨_, _, _, _, _, params, _, some ⟨statements, _⟩, _⟩ => by
    simp [Member.visits, MethodDecl.visits, Block.visits, Member.params, Visit.param?,
      Stmt.params_visitsAll statements]
  | .ctor ⟨params, ⟨statements, _⟩, _⟩ => by
    simp [Member.visits, CtorDecl.visits, Block.visits, Member.params, Visit.param?,
      Stmt.params_visitsAll statements]

/-- So does a traversal of several members. -/
theorem Member.params_visitsAll : (ms : List Member) →
    Visit.params (Member.visitsAll Visit.everywhere ms) = Member.paramsAll ms
  | [] => by simp [Member.visitsAll, Member.paramsAll]
  | m :: ms => by
    simp [Member.visitsAll, Member.paramsAll, Member.params_visits m, Member.params_visitsAll ms]

end

/-- A traversal of a module comes to its parameters one by one. -/
theorem Module.params_visits (m : Module) :
    Visit.params (m.visits Visit.everywhere) = m.params := by
  simp [Module.visits, Module.params, Visit.param?, Stmt.params_visitsAll]

end FieldPromotion
