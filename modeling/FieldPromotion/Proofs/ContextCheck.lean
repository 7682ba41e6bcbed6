import FieldPromotion.Promotion.Placement

/-!
# Misplaced modifiers by recursion

What the check of misplaced modifiers finds, said by recursion over the tree. Nothing is kept on the
way: a statement has the same errors wherever it is nested, and the errors of a member depend only on
the class that it is a member of. The check, with all that it keeps on its way through a module, finds
exactly these errors, and notes exactly the classes of the module that have some.
-/

namespace FieldPromotion

/-! ## §1 Errors by recursion -/

/-- The errors of a parameter list that may not have modifiers. -/
def Param.misplacedAll (place : Place) (ps : List Param) : List Error :=
  ps.filterMap (Param.misplaced? place)

/-- The place of a constructor, unless its parameters may be argument fields. -/
def ctorPlace? (cls : String) (isAbstract topLevel : Bool) : Option Place :=
  if isAbstract then some (.abstractCtor cls)
  else if topLevel then none
  else some (.localCtor cls)

/-- The errors of a constructor's parameters. -/
def Param.misplacedInCtor (cls : String) (isAbstract topLevel : Bool) (ps : List Param) :
    List Error :=
  match ctorPlace? cls isAbstract topLevel with
  | none => []
  | some place => misplacedAll place ps

mutual

/-- The errors in a statement that does not stand directly in the module. -/
def Stmt.misplaced : Stmt → List Error
  | .varDecl _ => []
  | .funDecl ⟨name, params, _, ⟨statements, _⟩, _⟩ =>
    Param.misplacedAll (.function name.name) params ++ Stmt.misplacedAll statements
  | .classDecl ⟨_, isAbstract, name, _, members, _⟩ =>
    Member.misplacedAll name.name isAbstract false members
  | .expr _ _ => []
  | .cond _ t none _ => t.misplaced
  | .cond _ t (some e) _ => t.misplaced ++ e.misplaced
  | .loop _ body _ => body.misplaced
  | .ret _ _ => []
  | .block ⟨statements, _⟩ => Stmt.misplacedAll statements
  | .empty _ => []

/-- The errors in several statements. -/
def Stmt.misplacedAll : List Stmt → List Error
  | [] => []
  | s :: ss => s.misplaced ++ Stmt.misplacedAll ss

/-- The errors in a member of a class. -/
def Member.misplaced (cls : String) (isAbstract topLevel : Bool) : Member → List Error
  | .field _ => []
  | .method ⟨_, _, _, _, name, params, _, none, _⟩ =>
    Param.misplacedAll (.method cls name.name) params
  | .method ⟨_, _, _, _, name, params, _, some ⟨statements, _⟩, _⟩ =>
    Param.misplacedAll (.method cls name.name) params ++ Stmt.misplacedAll statements
  | .ctor ⟨params, ⟨statements, _⟩, _⟩ =>
    Param.misplacedInCtor cls isAbstract topLevel params ++ Stmt.misplacedAll statements

/-- The errors in several members of a class. -/
def Member.misplacedAll (cls : String) (isAbstract topLevel : Bool) : List Member → List Error
  | [] => []
  | m :: ms => m.misplaced cls isAbstract topLevel ++ Member.misplacedAll cls isAbstract topLevel ms

end

/-- The errors in a statement that stands directly in the module. -/
def Stmt.misplacedTop : Stmt → List Error
  | .classDecl c => Member.misplacedAll c.name.name c.isAbstract true c.members
  | s => s.misplaced

/-- The errors in a module, in source order. -/
def Module.misplaced (m : Module) : List Error :=
  m.statements.flatMap Stmt.misplacedTop

/-- Whether a statement is a class with a misplaced parameter somewhere inside. -/
def Stmt.isSpoiltClass (s : Stmt) : Bool :=
  s.class?.isSome && !s.misplacedTop.isEmpty

/-- The positions of the classes that have a misplaced parameter somewhere inside. -/
def Module.spoiltClasses (m : Module) : List Nat :=
  (m.statements.zipIdx.filter fun s => s.1.isSpoiltClass).map Prod.snd

/-! ## §2 Reporting errors -/

namespace Enforcer

variable {e : Enforcer}

/-- Reports several errors, one after the other. -/
def pushAll (e : Enforcer) (errors : List Error) : Enforcer :=
  errors.foldl push e

@[simp] theorem pushAll_nil : e.pushAll [] = e := rfl

theorem pushAll_append (xs ys : List Error) : e.pushAll (xs ++ ys) = (e.pushAll xs).pushAll ys :=
  List.foldl_append

/-- All that errors change is the report. Of several errors at one position, only the first one is
noted. -/
theorem pushAll_eq (e : Enforcer) (errors : List Error) :
    e.pushAll errors = { e with report :=
      { errors := e.report.errors ++ errors
        failed :=
          if e.inTopLevel && !errors.isEmpty && !e.report.failed.contains e.position then
            e.report.failed ++ [e.position]
          else e.report.failed } } := by
  induction errors generalizing e with
  | nil => simp
  | cons x xs ih =>
    show (e.push x).pushAll xs = _
    have htop : (e.push x).inTopLevel = e.inTopLevel := rfl
    rw [ih, htop]
    -- only inside of a top level class does an error mark the class, and only the first one does
    cases hin : e.inTopLevel with
    | false => simp [push, hin]
    | true =>
      cases hold : e.report.failed.contains e.position with
      | true => simp_all [push]
      | false => simp_all [push]

@[simp] theorem classes_pushAll (errors : List Error) :
    (e.pushAll errors).classes = e.classes := by
  rw [pushAll_eq]

@[simp] theorem nextTopLevel_pushAll (errors : List Error) :
    (e.pushAll errors).nextTopLevel = e.nextTopLevel := by
  rw [pushAll_eq]

/-- Rejecting the modifiers of a parameter list reports the errors of its parameters. -/
theorem rejectModifiers_eq (place : Place) (ps : List Param) :
    e.rejectModifiers place ps = e.pushAll (Param.misplacedAll place ps) := by
  rw [pushAll, Param.misplacedAll, List.foldl_filterMap, rejectModifiers]
  congr 1
  funext e p
  cases p.misplaced? place with
  | none => rfl
  | some error => rfl

/-! ## §3 Inside of the module -/

/-- On the way out of a class, nothing is left of it but its errors. -/
theorem leaveClass_pushAll_enterClass (h : e.nextTopLevel = false) (name : String)
    (isAbstract : Bool) (errors : List Error) :
    ((e.enterClass name isAbstract).pushAll errors).leaveClass = e.pushAll errors := by
  -- the outermost class is the same as outside, or a class that is not directly in the module
  have htop : (e.enterClass name isAbstract).inTopLevel = e.inTopLevel := by
    unfold inTopLevel enterClass
    cases hcs : e.classes with
    | nil => simp [h]
    | cons f fs => simp [List.getLast?_cons_cons]
  rw [pushAll_eq, pushAll_eq, htop]
  simp [leaveClass, enterClass, h]

/-- Inside of the module a function has nothing to take back. -/
theorem enterFunction_eq (h : e.nextTopLevel = false) (name : String) (ps : List Param) :
    e.enterFunction name ps = e.pushAll (Param.misplacedAll (.function name) ps) := by
  have he : { e with nextTopLevel := false } = e := by rw [← h]
  rw [enterFunction, rejectModifiers_eq, he]

/-- A method is named after the innermost class, which is the one on top of the stack. -/
theorem enterMethod_eq {f : ClassFrame} {fs : List ClassFrame} (h : e.classes = f :: fs)
    (name : String) (ps : List Param) :
    e.enterMethod name ps = e.pushAll (Param.misplacedAll (.method f.name name) ps) := by
  have hname : e.className = f.name := by simp [className, h]
  rw [enterMethod, rejectModifiers_eq, hname]

/-- So is the constructor, and whether it is looked at depends on that class alone. -/
theorem enterCtor_eq {f : ClassFrame} {fs : List ClassFrame} (h : e.classes = f :: fs)
    (ps : List Param) :
    e.enterCtor ps = e.pushAll (Param.misplacedInCtor f.name f.isAbstract f.topLevel ps) := by
  have hplace : e.classes.head?.bind ClassFrame.ctorPlace? =
      FieldPromotion.ctorPlace? f.name f.isAbstract f.topLevel := by
    rw [h]
    rfl
  unfold enterCtor Param.misplacedInCtor
  rw [hplace]
  cases FieldPromotion.ctorPlace? f.name f.isAbstract f.topLevel with
  | none => rfl
  | some place => exact rejectModifiers_eq place ps

-- The note that a class stands directly in the module is used up when the check gets inside of
-- anything, so a statement there leaves behind nothing but its errors.
mutual

/-- Away from the top level, a statement adds its errors and leaves the rest of the state as it was:
the stack is back to what it was before, and the note is still used up. -/
theorem visitStmt_eq : (s : Stmt) → (e : Enforcer) → e.nextTopLevel = false →
    e.visitStmt s = e.pushAll s.misplaced
  | .varDecl _, _, _ => by rw [visitStmt, Stmt.misplaced, pushAll_nil]
  | .funDecl ⟨name, params, _, ⟨statements, _⟩, _⟩, e, h => by
    rw [visitStmt, enterFunction_eq h, visitStmts_eq statements _ (by simpa using h),
      Stmt.misplaced, pushAll_append]
  -- the frame of the class is on the stack while its members are visited, and is gone afterwards
  | .classDecl ⟨_, isAbstract, name, _, members, _⟩, e, h => by
    rw [visitStmt, visitMembers_eq members _ ⟨name.name, isAbstract, e.nextTopLevel⟩ e.classes rfl
      rfl, leaveClass_pushAll_enterClass h, h, Stmt.misplaced]
  | .expr _ _, _, _ => by rw [visitStmt, Stmt.misplaced, pushAll_nil]
  | .cond _ t none _, e, h => by rw [visitStmt, visitStmt_eq t e h, Stmt.misplaced]
  | .cond _ t (some other) _, e, h => by
    rw [visitStmt, visitStmt_eq t e h, visitStmt_eq other _ (by simpa using h), Stmt.misplaced,
      pushAll_append]
  | .loop _ body _, e, h => by rw [visitStmt, visitStmt_eq body e h, Stmt.misplaced]
  | .ret _ _, _, _ => by rw [visitStmt, Stmt.misplaced, pushAll_nil]
  | .block ⟨statements, _⟩, e, h => by
    rw [visitStmt, visitStmts_eq statements e h, Stmt.misplaced]
  | .empty _, _, _ => by rw [visitStmt, Stmt.misplaced, pushAll_nil]

/-- The same for several statements. -/
theorem visitStmts_eq : (ss : List Stmt) → (e : Enforcer) → e.nextTopLevel = false →
    e.visitStmts ss = e.pushAll (Stmt.misplacedAll ss)
  | [], _, _ => by rw [visitStmts, Stmt.misplacedAll, pushAll_nil]
  | s :: ss, e, h => by
    rw [visitStmts, visitStmt_eq s e h, visitStmts_eq ss _ (by simpa using h), Stmt.misplacedAll,
      pushAll_append]

/-- A member adds the errors that it has inside of the class on top of the stack. -/
theorem visitMember_eq : (m : Member) → (e : Enforcer) → (f : ClassFrame) →
    (fs : List ClassFrame) → e.classes = f :: fs → e.nextTopLevel = false →
    e.visitMember m = e.pushAll (m.misplaced f.name f.isAbstract f.topLevel)
  | .field _, _, _, _, _, _ => by rw [visitMember, Member.misplaced, pushAll_nil]
  | .method ⟨_, _, _, _, name, params, _, none, _⟩, e, f, fs, hf, _ => by
    rw [visitMember, enterMethod_eq hf, Member.misplaced]
  | .method ⟨_, _, _, _, name, params, _, some ⟨statements, _⟩, _⟩, e, f, fs, hf, h => by
    rw [visitMember, enterMethod_eq hf, visitStmts_eq statements _ (by simpa using h),
      Member.misplaced, pushAll_append]
  | .ctor ⟨params, ⟨statements, _⟩, _⟩, e, f, fs, hf, h => by
    rw [visitMember, enterCtor_eq hf, visitStmts_eq statements _ (by simpa using h),
      Member.misplaced, pushAll_append]

/-- The same for several members. -/
theorem visitMembers_eq : (ms : List Member) → (e : Enforcer) → (f : ClassFrame) →
    (fs : List ClassFrame) → e.classes = f :: fs → e.nextTopLevel = false →
    e.visitMembers ms = e.pushAll (Member.misplacedAll f.name f.isAbstract f.topLevel ms)
  | [], _, _, _, _, _ => by rw [visitMembers, Member.misplacedAll, pushAll_nil]
  | m :: ms, e, f, fs, hf, h => by
    rw [visitMembers, visitMember_eq m e f fs hf h,
      visitMembers_eq ms _ f fs (by simpa using hf) (by simpa using h), Member.misplacedAll,
      pushAll_append]

end

/-! ## §4 The whole module -/

/-- A statement that stands directly in the module adds its errors, and its position if it is a class
with errors. -/
theorem visitTop_eq (h : e.classes = []) (s : Stmt) (i : Nat) :
    e.visitTop (s, i) = { e with
      position := i
      nextTopLevel := false
      report :=
        { errors := e.report.errors ++ s.misplacedTop
          failed := if s.isSpoiltClass && !e.report.failed.contains i then e.report.failed ++ [i]
            else e.report.failed } } := by
  cases s with
  | classDecl c =>
    obtain ⟨_, isAbstract, name, _, members, _⟩ := c
    rw [visitTop, visitStmt, visitMembers_eq members _ ⟨name.name, isAbstract, true⟩ [] (by
      simp [enterClass, h, Stmt.class?]) rfl, pushAll_eq]
    simp [leaveClass, enterClass, inTopLevel, h, Stmt.isSpoiltClass, Stmt.misplacedTop, Stmt.class?]
  | _ =>
    -- no class is around it, so no position is noted
    rw [visitTop, visitStmt_eq _ _ rfl, pushAll_eq]
    simp [inTopLevel, h, Stmt.isSpoiltClass, Stmt.misplacedTop, Stmt.class?]

/-- Positions only grow, so none is noted twice. -/
theorem report_foldl_visitTop (ss : List Stmt) (k : Nat) (h : e.classes = [])
    (hfailed : ∀ i ∈ e.report.failed, i < k) :
    ((ss.zipIdx k).foldl visitTop e).report =
      { errors := e.report.errors ++ ss.flatMap Stmt.misplacedTop
        failed := e.report.failed
          ++ ((ss.zipIdx k).filter fun s => s.1.isSpoiltClass).map Prod.snd } := by
  induction ss generalizing e k with
  | nil => simp
  | cons s ss ih =>
    -- positions grow, so the class at this one has not been marked before
    have hnew : e.report.failed.contains k = false := by
      rw [← Bool.not_eq_true, List.contains_iff_mem]
      intro hk
      exact Nat.lt_irrefl k (hfailed k hk)
    rw [List.zipIdx_cons, List.foldl_cons, visitTop_eq h, hnew, ih (k + 1)]
    · cases hs : s.isSpoiltClass <;> simp [hs]
    · exact h
    · intro i hi
      cases hs : s.isSpoiltClass with
      | false =>
        exact Nat.lt_succ_of_lt (hfailed i (by simpa [hs] using hi))
      | true =>
        have hcases : i ∈ e.report.failed ∨ i = k := by simpa [hs] using hi
        rcases hcases with hi | rfl
        · exact Nat.lt_succ_of_lt (hfailed i hi)
        · exact Nat.lt_succ_self i

end Enforcer

/-- The check finds the misplaced modifiers of the tree and the classes that they spoil. -/
theorem Module.checkContexts_eq (m : Module) :
    m.checkContexts = { errors := m.misplaced, failed := m.spoiltClasses } := by
  rw [Module.checkContexts, Enforcer.report_foldl_visitTop m.statements 0 rfl (by simp)]
  simp [Module.misplaced, Module.spoiltClasses]

/-- The errors of the check are the misplaced modifiers of the tree. -/
theorem Module.errors_checkContexts (m : Module) : m.checkContexts.errors = m.misplaced := by
  rw [Module.checkContexts_eq]

end FieldPromotion
