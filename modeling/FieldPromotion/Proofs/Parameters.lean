import FieldPromotion.Proofs.ClassPromotion

/-!
# The parameters of a tree

All parameters of a module, however deep they are nested, and what the check of misplaced modifiers
says about them. Away from the constructors of concrete top-level classes, nothing is misplaced
exactly when no parameter has modifiers. Promotion puts nothing misplaced into a class.
-/

namespace FieldPromotion

/-! ## §1 Listing parameters -/

mutual

/-- The parameters in a statement, at any depth. -/
def Stmt.params : Stmt → List Param
  | .varDecl _ => []
  | .funDecl ⟨_, params, _, ⟨statements, _⟩, _⟩ => params ++ Stmt.paramsAll statements
  | .classDecl ⟨_, _, _, _, members, _⟩ => Member.paramsAll members
  | .expr _ _ => []
  | .cond _ t none _ => t.params
  | .cond _ t (some e) _ => t.params ++ e.params
  | .loop _ body _ => body.params
  | .ret _ _ => []
  | .block ⟨statements, _⟩ => Stmt.paramsAll statements
  | .empty _ => []

/-- The parameters in several statements. -/
def Stmt.paramsAll : List Stmt → List Param
  | [] => []
  | s :: ss => s.params ++ Stmt.paramsAll ss

/-- The parameters in a member of a class. -/
def Member.params : Member → List Param
  | .field _ => []
  | .method ⟨_, _, _, _, _, params, _, none, _⟩ => params
  | .method ⟨_, _, _, _, _, params, _, some ⟨statements, _⟩, _⟩ =>
    params ++ Stmt.paramsAll statements
  | .ctor ⟨params, ⟨statements, _⟩, _⟩ => params ++ Stmt.paramsAll statements

/-- The parameters in several members. -/
def Member.paramsAll : List Member → List Param
  | [] => []
  | m :: ms => m.params ++ Member.paramsAll ms

end

/-- The parameters of a module, in source order. -/
def Module.params (m : Module) : List Param :=
  Stmt.paramsAll m.statements

theorem Stmt.paramsAll_eq_flatMap (ss : List Stmt) :
    Stmt.paramsAll ss = ss.flatMap Stmt.params := by
  induction ss with
  | nil => rfl
  | cons s ss ih => rw [Stmt.paramsAll, ih, List.flatMap_cons]

theorem Member.paramsAll_eq_flatMap (ms : List Member) :
    Member.paramsAll ms = ms.flatMap Member.params := by
  induction ms with
  | nil => rfl
  | cons m ms ih => rw [Member.paramsAll, ih, List.flatMap_cons]

theorem Stmt.misplacedAll_eq_flatMap (ss : List Stmt) :
    Stmt.misplacedAll ss = ss.flatMap Stmt.misplaced := by
  induction ss with
  | nil => rfl
  | cons s ss ih => rw [Stmt.misplacedAll, ih, List.flatMap_cons]

theorem Member.misplacedAll_eq_flatMap (cls : String) (isAbstract topLevel : Bool)
    (ms : List Member) : Member.misplacedAll cls isAbstract topLevel ms =
      ms.flatMap (Member.misplaced cls isAbstract topLevel) := by
  induction ms with
  | nil => rfl
  | cons m ms ih => rw [Member.misplacedAll, ih, List.flatMap_cons]

/-! ## §2 Misplaced modifiers -/

theorem Param.misplaced?_eq_none_iff {p : Param} {place : Place} :
    p.misplaced? place = none ↔ p.modifiers = [] := by
  unfold Param.misplaced?
  cases hm : p.modifiers with
  | nil => simp [Param.hasStorage, hm]
  | cons stray rest =>
    split <;> simp

theorem Param.misplacedAll_eq_nil_iff {ps : List Param} {place : Place} :
    Param.misplacedAll place ps = [] ↔ ∀ p ∈ ps, p.modifiers = [] := by
  simp only [Param.misplacedAll, List.filterMap_eq_nil_iff, Param.misplaced?_eq_none_iff]

/-- The constructor of a local class is no place for modifiers. -/
theorem Param.misplacedInCtor_local_eq_nil_iff {ps : List Param} {cls : String}
    {isAbstract : Bool} :
    Param.misplacedInCtor cls isAbstract false ps = [] ↔ ∀ p ∈ ps, p.modifiers = [] := by
  unfold Param.misplacedInCtor ctorPlace?
  cases isAbstract <;> simp [Param.misplacedAll_eq_nil_iff]

theorem Param.misplacedInCtor_of_plain {ps : List Param} (h : ∀ p ∈ ps, p.modifiers = [])
    (cls : String) (isAbstract topLevel : Bool) :
    Param.misplacedInCtor cls isAbstract topLevel ps = [] := by
  unfold Param.misplacedInCtor
  split
  · rfl
  · exact Param.misplacedAll_eq_nil_iff.mpr h

theorem Member.misplaced_ctor (cls : String) (isAbstract topLevel : Bool) (c : CtorDecl) :
    (Member.ctor c).misplaced cls isAbstract topLevel =
      Param.misplacedInCtor cls isAbstract topLevel c.params
        ++ Stmt.misplacedAll c.body.statements := by
  obtain ⟨params, ⟨statements, _⟩, _⟩ := c
  rw [Member.misplaced]

theorem Member.params_ctor (c : CtorDecl) :
    (Member.ctor c).params = c.params ++ Stmt.paramsAll c.body.statements := by
  obtain ⟨params, ⟨statements, _⟩, _⟩ := c
  rw [Member.params]

-- The induction follows the tree. A class inside it is never top-level, so all of its constructors
-- count.
mutual

/-- Nothing is misplaced in a statement exactly when no parameter in it has modifiers. -/
theorem Stmt.misplaced_eq_nil_iff : (s : Stmt) →
    (s.misplaced = [] ↔ ∀ p ∈ s.params, p.modifiers = [])
  | .varDecl _ => by simp [Stmt.misplaced, Stmt.params]
  | .funDecl ⟨name, params, _, ⟨statements, _⟩, _⟩ => by
    rw [Stmt.misplaced, Stmt.params, List.append_eq_nil_iff, List.forall_mem_append,
      Param.misplacedAll_eq_nil_iff, Stmt.misplacedAll_eq_nil_iff statements]
  -- a class that is not at the top level may have modifiers nowhere
  | .classDecl ⟨_, isAbstract, name, _, members, _⟩ => by
    rw [Stmt.misplaced, Stmt.params, Member.misplacedAll_eq_nil_iff name.name isAbstract members]
  | .expr _ _ => by simp [Stmt.misplaced, Stmt.params]
  | .cond _ t none _ => by
    rw [Stmt.misplaced, Stmt.params, Stmt.misplaced_eq_nil_iff t]
  | .cond _ t (some e) _ => by
    rw [Stmt.misplaced, Stmt.params, List.append_eq_nil_iff, List.forall_mem_append,
      Stmt.misplaced_eq_nil_iff t, Stmt.misplaced_eq_nil_iff e]
  | .loop _ body _ => by
    rw [Stmt.misplaced, Stmt.params, Stmt.misplaced_eq_nil_iff body]
  | .ret _ _ => by simp [Stmt.misplaced, Stmt.params]
  | .block ⟨statements, _⟩ => by
    rw [Stmt.misplaced, Stmt.params, Stmt.misplacedAll_eq_nil_iff statements]
  | .empty _ => by simp [Stmt.misplaced, Stmt.params]

theorem Stmt.misplacedAll_eq_nil_iff : (ss : List Stmt) →
    (Stmt.misplacedAll ss = [] ↔ ∀ p ∈ Stmt.paramsAll ss, p.modifiers = [])
  | [] => by simp [Stmt.misplacedAll, Stmt.paramsAll]
  | s :: ss => by
    rw [Stmt.misplacedAll, Stmt.paramsAll, List.append_eq_nil_iff, List.forall_mem_append,
      Stmt.misplaced_eq_nil_iff s, Stmt.misplacedAll_eq_nil_iff ss]

theorem Member.misplaced_eq_nil_iff (cls : String) (isAbstract : Bool) : (m : Member) →
    (m.misplaced cls isAbstract false = [] ↔ ∀ p ∈ m.params, p.modifiers = [])
  | .field _ => by simp [Member.misplaced, Member.params]
  | .method ⟨_, _, _, _, name, params, _, none, _⟩ => by
    rw [Member.misplaced, Member.params, Param.misplacedAll_eq_nil_iff]
  | .method ⟨_, _, _, _, name, params, _, some ⟨statements, _⟩, _⟩ => by
    rw [Member.misplaced, Member.params, List.append_eq_nil_iff, List.forall_mem_append,
      Param.misplacedAll_eq_nil_iff, Stmt.misplacedAll_eq_nil_iff statements]
  | .ctor ⟨params, ⟨statements, _⟩, _⟩ => by
    rw [Member.misplaced, Member.params, List.append_eq_nil_iff, List.forall_mem_append,
      Param.misplacedInCtor_local_eq_nil_iff, Stmt.misplacedAll_eq_nil_iff statements]

theorem Member.misplacedAll_eq_nil_iff (cls : String) (isAbstract : Bool) : (ms : List Member) →
    (Member.misplacedAll cls isAbstract false ms = [] ↔
      ∀ p ∈ Member.paramsAll ms, p.modifiers = [])
  | [] => by simp [Member.misplacedAll, Member.paramsAll]
  | m :: ms => by
    rw [Member.misplacedAll, Member.paramsAll, List.append_eq_nil_iff, List.forall_mem_append,
      Member.misplaced_eq_nil_iff cls isAbstract m, Member.misplacedAll_eq_nil_iff cls isAbstract ms]

end

/-- Only the constructor knows whether its class is top-level. -/
theorem Member.misplaced_eq_of_not_ctor {m : Member} (h : m.ctor? = none) (cls : String)
    (isAbstract topLevel : Bool) :
    m.misplaced cls isAbstract topLevel = m.misplaced cls isAbstract false := by
  cases m with
  | field f => rw [Member.misplaced, Member.misplaced]
  | method f =>
    obtain ⟨_, _, _, _, name, params, _, body, _⟩ := f
    rcases body with _ | ⟨statements, _⟩ <;> rw [Member.misplaced, Member.misplaced]
  | ctor c => cases h

/-! ## §3 Classes of a module -/

/-- A settled class in which nothing is misplaced has no modifiers left. -/
theorem ClassDecl.params_of_settled {c : ClassDecl} (hc : c.Settled)
    (h : (Stmt.classDecl c).misplacedTop = []) :
    ∀ p ∈ (Stmt.classDecl c).params, p.modifiers = [] := by
  have hparams : (Stmt.classDecl c).params = c.members.flatMap Member.params := by
    obtain ⟨_, _, _, _, members, _⟩ := c
    rw [Stmt.params, Member.paramsAll_eq_flatMap]
  intro p hp
  rw [hparams, List.mem_flatMap] at hp
  obtain ⟨x, hx, hp⟩ := hp
  rw [Stmt.misplacedTop, Member.misplacedAll_eq_flatMap, List.flatMap_eq_nil_iff] at h
  -- a constructor has been settled, and everything else has passed the check
  cases hctor : x.ctor? with
  | none =>
    have hnil := h x hx
    rw [Member.misplaced_eq_of_not_ctor hctor] at hnil
    exact (Member.misplaced_eq_nil_iff _ _ x).mp hnil p hp
  | some ctor =>
    obtain rfl : x = .ctor ctor := by cases x <;> simp_all [Member.ctor?]
    have hmem : ctor ∈ c.ctors := List.mem_filterMap.mpr ⟨.ctor ctor, hx, rfl⟩
    rw [Member.params_ctor, List.mem_append] at hp
    rcases hp with hp | hp
    · exact hc.2 ctor hmem p hp
    · have hnil := h _ hx
      rw [Member.misplaced_ctor, List.append_eq_nil_iff] at hnil
      exact (Stmt.misplacedAll_eq_nil_iff _).mp hnil.2 p hp

/-- The assignments that are put into a constructor contain nothing misplaced. -/
theorem misplacedAll_assigning {body : List Stmt} (h : Stmt.misplacedAll body = [])
    (names : List Ident) : Stmt.misplacedAll (assigning names body) = [] := by
  rw [Stmt.misplacedAll_eq_flatMap, List.flatMap_eq_nil_iff] at *
  intro s hs
  rw [assigning, insertAt, List.mem_append, List.mem_append] at hs
  rcases hs with (hs | hs) | hs
  · exact h s (List.mem_of_mem_take hs)
  · obtain ⟨name, _, rfl⟩ := List.mem_map.mp hs
    rw [fieldAssignment, Stmt.misplaced]
  · exact h s (List.mem_of_mem_drop hs)

/-- Promotion puts nothing misplaced into a class. -/
theorem ClassDecl.misplacedTop_promote {c : ClassDecl} {index : FieldIndex} {options : Options}
    {new : Promoted} (hnew : c.promote index options = .ok new)
    (h : (Stmt.classDecl c).misplacedTop = []) : (Stmt.classDecl new.decl).misplacedTop = [] := by
  obtain ⟨hname, -, habs⟩ := ClassDecl.promote_head hnew
  rcases ClassDecl.promote_eq_ok_iff.mp hnew with
    ⟨-, rfl⟩ | ⟨ctor, roles, hctors, hroles, -, rfl⟩
  · exact h
  · rw [Stmt.misplacedTop, Member.misplacedAll_eq_flatMap, List.flatMap_eq_nil_iff] at *
    rw [hname, habs]
    obtain ⟨i, hmembers⟩ := c.members_promoteWith options ctor (ctor.params.zip roles)
    rw [hmembers]
    intro x hx
    have hcases : x ∈ c.members.map (Member.withCtor (ctor.promote (ctor.params.zip roles)
        (promotedFields options (ctor.params.zip roles)))) ∨ ∃ f, x = .field f := by
      rw [insertAt, List.mem_append, List.mem_append] at hx
      rcases hx with (hx | hx) | hx
      · exact Or.inl (List.mem_of_mem_take hx)
      · obtain ⟨f, _, rfl⟩ := List.mem_map.mp hx
        exact Or.inr ⟨f, rfl⟩
      · exact Or.inl (List.mem_of_mem_drop hx)
    rcases hcases with hx | ⟨f, rfl⟩
    · obtain ⟨y, hy, rfl⟩ := List.mem_map.mp hx
      cases y with
      | field f => exact h _ hy
      | method f => exact h _ hy
      | ctor old =>
        -- the constructor is the only one, so its body is the one that was checked
        have hold : old ∈ c.ctors := List.mem_filterMap.mpr ⟨.ctor old, hy, rfl⟩
        obtain rfl : old = ctor := by simpa [hctors] using hold
        have hbody := h _ hy
        rw [Member.misplaced_ctor, List.append_eq_nil_iff] at hbody
        rw [Member.withCtor, Member.misplaced_ctor, List.append_eq_nil_iff]
        refine ⟨Param.misplacedInCtor_of_plain (fun p hp => ?_) _ _ _,
          misplacedAll_assigning hbody.2 _⟩
        exact CtorDecl.modifiers_promote hroles _ hp
    · rw [Member.misplaced]

end FieldPromotion
