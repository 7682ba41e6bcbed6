import FieldPromotion.Proofs.Traversal

/-!
# Where parameters stand

Every parameter of a module together with what encloses it. Whether a parameter may have modifiers,
and how an error names the place where it stands, can be read off the enclosing declarations alone.
The check of misplaced modifiers says no more and no less than that: it goes through the parameters
in the order of a traversal and reports each one that has modifiers out of place.
-/

namespace FieldPromotion

/-! ## §1 Parameters and what encloses them -/

/-- Something that encloses a parameter or a statement. A block, a branch and the body of a loop
are all `nested`. -/
inductive Scope where
  | function (name : String)
  | method (name : String)
  | ctor
  | cls (name : String) (isAbstract : Bool)
  | nested
  deriving DecidableEq, Inhabited

/-- A parameter and what encloses it, innermost first. The first scope is the function, method or
constructor that the parameter belongs to. -/
structure ParamSite where
  scopes : List Scope
  param : Param

/-- The sites of a parameter list. -/
def Param.sitesAt (scopes : List Scope) (ps : List Param) : List ParamSite :=
  ps.map fun p => ⟨scopes, p⟩

@[simp] theorem Param.map_sitesAt (scopes : List Scope) (ps : List Param) :
    (Param.sitesAt scopes ps).map ParamSite.param = ps := by
  simp [Param.sitesAt, Function.comp_def]

mutual

/-- The parameters in a statement that is enclosed by `outer`. -/
def Stmt.paramSites (outer : List Scope) : Stmt → List ParamSite
  | .varDecl _ => []
  | .funDecl ⟨name, params, _, ⟨statements, _⟩, _⟩ =>
    Param.sitesAt (.function name.name :: outer) params
      ++ Stmt.paramSitesAll (.function name.name :: outer) statements
  | .classDecl ⟨_, isAbstract, name, _, members, _⟩ =>
    Member.paramSitesAll (.cls name.name isAbstract :: outer) members
  | .expr _ _ => []
  | .cond _ t none _ => t.paramSites (.nested :: outer)
  | .cond _ t (some e) _ => t.paramSites (.nested :: outer) ++ e.paramSites (.nested :: outer)
  | .loop _ body _ => body.paramSites (.nested :: outer)
  | .ret _ _ => []
  | .block ⟨statements, _⟩ => Stmt.paramSitesAll (.nested :: outer) statements
  | .empty _ => []

/-- The parameters in several statements. -/
def Stmt.paramSitesAll (outer : List Scope) : List Stmt → List ParamSite
  | [] => []
  | s :: ss => s.paramSites outer ++ Stmt.paramSitesAll outer ss

/-- The parameters in a member of a class. -/
def Member.paramSites (outer : List Scope) : Member → List ParamSite
  | .field _ => []
  | .method ⟨_, _, _, _, name, params, _, none, _⟩ =>
    Param.sitesAt (.method name.name :: outer) params
  | .method ⟨_, _, _, _, name, params, _, some ⟨statements, _⟩, _⟩ =>
    Param.sitesAt (.method name.name :: outer) params
      ++ Stmt.paramSitesAll (.method name.name :: outer) statements
  | .ctor ⟨params, ⟨statements, _⟩, _⟩ =>
    Param.sitesAt (.ctor :: outer) params ++ Stmt.paramSitesAll (.ctor :: outer) statements

/-- The parameters in several members. -/
def Member.paramSitesAll (outer : List Scope) : List Member → List ParamSite
  | [] => []
  | m :: ms => m.paramSites outer ++ Member.paramSitesAll outer ms

end

/-- The parameters of a module with what encloses them. -/
def Module.paramSites (m : Module) : List ParamSite :=
  Stmt.paramSitesAll [] m.statements

-- Forgetting what is around them leaves the parameters of the tree.
mutual

/-- The sites of a statement have its parameters, in text order. -/
theorem Stmt.map_paramSites : (s : Stmt) → (outer : List Scope) →
    (s.paramSites outer).map ParamSite.param = s.params
  | .varDecl _, _ => by simp [Stmt.paramSites, Stmt.params]
  | .funDecl ⟨name, params, _, ⟨statements, _⟩, _⟩, outer => by
    simp [Stmt.paramSites, Stmt.params, Stmt.map_paramSitesAll statements]
  | .classDecl ⟨_, isAbstract, name, _, members, _⟩, outer => by
    simp [Stmt.paramSites, Stmt.params, Member.map_paramSitesAll members]
  | .expr _ _, _ => by simp [Stmt.paramSites, Stmt.params]
  | .cond _ t none _, outer => by
    simp [Stmt.paramSites, Stmt.params, Stmt.map_paramSites t]
  | .cond _ t (some e) _, outer => by
    simp [Stmt.paramSites, Stmt.params, Stmt.map_paramSites t, Stmt.map_paramSites e]
  | .loop _ body _, outer => by simp [Stmt.paramSites, Stmt.params, Stmt.map_paramSites body]
  | .ret _ _, _ => by simp [Stmt.paramSites, Stmt.params]
  | .block ⟨statements, _⟩, outer => by
    simp [Stmt.paramSites, Stmt.params, Stmt.map_paramSitesAll statements]
  | .empty _, _ => by simp [Stmt.paramSites, Stmt.params]

theorem Stmt.map_paramSitesAll : (ss : List Stmt) → (outer : List Scope) →
    (Stmt.paramSitesAll outer ss).map ParamSite.param = Stmt.paramsAll ss
  | [], _ => by simp [Stmt.paramSitesAll, Stmt.paramsAll]
  | s :: ss, outer => by
    simp [Stmt.paramSitesAll, Stmt.paramsAll, Stmt.map_paramSites s, Stmt.map_paramSitesAll ss]

/-- So have the sites of a member. -/
theorem Member.map_paramSites : (m : Member) → (outer : List Scope) →
    (m.paramSites outer).map ParamSite.param = m.params
  | .field _, _ => by simp [Member.paramSites, Member.params]
  | .method ⟨_, _, _, _, name, params, _, none, _⟩, outer => by
    simp [Member.paramSites, Member.params]
  | .method ⟨_, _, _, _, name, params, _, some ⟨statements, _⟩, _⟩, outer => by
    simp [Member.paramSites, Member.params, Stmt.map_paramSitesAll statements]
  | .ctor ⟨params, ⟨statements, _⟩, _⟩, outer => by
    simp [Member.paramSites, Member.params, Stmt.map_paramSitesAll statements]

theorem Member.map_paramSitesAll : (ms : List Member) → (outer : List Scope) →
    (Member.paramSitesAll outer ms).map ParamSite.param = Member.paramsAll ms
  | [], _ => by simp [Member.paramSitesAll, Member.paramsAll]
  | m :: ms, outer => by
    simp [Member.paramSitesAll, Member.paramsAll, Member.map_paramSites m,
      Member.map_paramSitesAll ms]

end

/-! ## §2 What is expected of a site -/

/-- The name of a class and whether it is abstract. -/
def Scope.class? : Scope → Option (String × Bool)
  | .cls name isAbstract => some (name, isAbstract)
  | _ => none

/-- The innermost class among scopes. -/
def Scope.innermostClass (scopes : List Scope) : String × Bool :=
  (scopes.findSome? Scope.class?).getD ("", false)

namespace ParamSite

/-- Whether the parameter belongs to a constructor of a concrete class that stands directly in the
module. -/
def inTopCtor (s : ParamSite) : Bool :=
  match s.scopes with
  | [.ctor, .cls _ false] => true
  | _ => false

/-- How an error names the place of the parameter. Methods and constructors are named after the
innermost class around them. -/
def place (s : ParamSite) : Place :=
  let cls := Scope.innermostClass s.scopes
  match s.scopes with
  | .function name :: _ => .function name
  | .method name :: _ => .method cls.1 name
  | _ => if cls.2 then .abstractCtor cls.1 else .localCtor cls.1

/-- The error of a parameter: none if it has no modifiers or may have them, and else one that is
about the parameter if it has `var` or `final`, or about its first modifier. -/
def error? (s : ParamSite) : Option Error :=
  match s.param.modifiers with
  | [] => none
  | first :: _ =>
    if s.inTopCtor then none
    else if s.param.hasModifier (.storage .var) || s.param.hasModifier (.storage .final) then
      some (.misplacedField s.param.name.name s.place s.param.span)
    else some (.modifierWithoutStorage s.param.name.name first.keyword first.span)

end ParamSite

/-! ## §3 Where modifiers may be -/

/-- A parameter of a function is not one of a top level constructor, whatever encloses the
function. -/
theorem Param.filter_sitesAt_function (name : String) (outer : List Scope) (ps : List Param) :
    (Param.sitesAt (.function name :: outer) ps).filter ParamSite.inTopCtor = [] := by
  simp [Param.sitesAt, ParamSite.inTopCtor]

theorem Param.filter_sitesAt_method (name : String) (outer : List Scope) (ps : List Param) :
    (Param.sitesAt (.method name :: outer) ps).filter ParamSite.inTopCtor = [] := by
  simp [Param.sitesAt, ParamSite.inTopCtor]

/-- The parameters of a constructor count if its class is at the top level and not abstract, and
then all of them do. -/
theorem Param.filter_sitesAt_ctor (cls : String) (isAbstract : Bool) (outer : List Scope)
    (ps : List Param) :
    (Param.sitesAt (.ctor :: .cls cls isAbstract :: outer) ps).filter ParamSite.inTopCtor =
      if isAbstract || !outer.isEmpty then []
      else Param.sitesAt (.ctor :: .cls cls isAbstract :: outer) ps := by
  cases isAbstract <;> cases outer <;> simp [Param.sitesAt, ParamSite.inTopCtor]

/-- A class that is not one of the module has something around it. -/
theorem Stmt.isEmpty_of_class {c : ClassDecl} {outer : List Scope}
    (h : (Stmt.classDecl c).class? = none ∨ outer ≠ []) : outer.isEmpty = false := by
  rcases h with h | h
  · cases h
  · simpa using h

-- Inside of anything there is no such place. So for members it matters whether something is around
-- their class, and for the statements in their bodies it does not.
mutual

/-- Within anything that is not a class of the module, no constructor counts. -/
theorem Stmt.filter_paramSites : (s : Stmt) → (outer : List Scope) →
    (s.class? = none ∨ outer ≠ []) → (s.paramSites outer).filter ParamSite.inTopCtor = []
  | .varDecl _, _, _ => by simp [Stmt.paramSites]
  | .funDecl ⟨name, params, _, ⟨statements, _⟩, _⟩, outer, _ => by
    simp [Stmt.paramSites, Param.filter_sitesAt_function, Stmt.filter_paramSitesAll statements]
  | .classDecl ⟨_, isAbstract, name, _, members, _⟩, outer, h => by
    simp [Stmt.paramSites, Member.filter_paramSitesAll members, Stmt.isEmpty_of_class h]
  | .expr _ _, _, _ => by simp [Stmt.paramSites]
  | .cond _ t none _, outer, _ => by simp [Stmt.paramSites, Stmt.filter_paramSites t]
  | .cond _ t (some e) _, outer, _ => by
    simp [Stmt.paramSites, Stmt.filter_paramSites t, Stmt.filter_paramSites e]
  | .loop _ body _, outer, _ => by simp [Stmt.paramSites, Stmt.filter_paramSites body]
  | .ret _ _, _, _ => by simp [Stmt.paramSites]
  | .block ⟨statements, _⟩, outer, _ => by
    simp [Stmt.paramSites, Stmt.filter_paramSitesAll statements]
  | .empty _, _, _ => by simp [Stmt.paramSites]

theorem Stmt.filter_paramSitesAll : (ss : List Stmt) → (outer : List Scope) → outer ≠ [] →
    (Stmt.paramSitesAll outer ss).filter ParamSite.inTopCtor = []
  | [], _, _ => by simp [Stmt.paramSitesAll]
  | s :: ss, outer, h => by
    rw [Stmt.paramSitesAll, List.filter_append, Stmt.filter_paramSites s outer (Or.inr h),
      Stmt.filter_paramSitesAll ss outer h, List.nil_append]

/-- The constructors that count in a class are its own. -/
theorem Member.filter_paramSites : (m : Member) → (cls : String) → (isAbstract : Bool) →
    (outer : List Scope) →
    (m.paramSites (.cls cls isAbstract :: outer)).filter ParamSite.inTopCtor =
      if isAbstract || !outer.isEmpty then []
      else m.ctor?.toList.flatMap fun c =>
        Param.sitesAt (.ctor :: .cls cls isAbstract :: outer) c.params
  | .field _, _, _, _ => by simp [Member.paramSites, Member.ctor?]
  | .method ⟨_, _, _, _, name, params, _, none, _⟩, _, _, _ => by
    simp [Member.paramSites, Member.ctor?, Param.filter_sitesAt_method]
  | .method ⟨_, _, _, _, name, params, _, some ⟨statements, _⟩, _⟩, _, _, _ => by
    simp [Member.paramSites, Member.ctor?, Param.filter_sitesAt_method,
      Stmt.filter_paramSitesAll statements]
  | .ctor ⟨params, ⟨statements, _⟩, _⟩, _, _, _ => by
    simp [Member.paramSites, Member.ctor?, Param.filter_sitesAt_ctor,
      Stmt.filter_paramSitesAll statements]

theorem Member.filter_paramSitesAll : (ms : List Member) → (cls : String) →
    (isAbstract : Bool) → (outer : List Scope) →
    (Member.paramSitesAll (.cls cls isAbstract :: outer) ms).filter ParamSite.inTopCtor =
      if isAbstract || !outer.isEmpty then []
      else (ms.filterMap Member.ctor?).flatMap fun c =>
        Param.sitesAt (.ctor :: .cls cls isAbstract :: outer) c.params
  | [], _, _, _ => by simp [Member.paramSitesAll]
  | m :: ms, cls, isAbstract, outer => by
    rw [Member.paramSitesAll, List.filter_append, Member.filter_paramSites m,
      Member.filter_paramSitesAll ms, List.filterMap_eq_flatMap_toList,
      List.filterMap_eq_flatMap_toList, List.flatMap_cons, List.flatMap_append]
    split
    · rfl
    · rfl

end

/-- At the top level of a module the constructors of concrete classes are places for modifiers, and
nothing else is. -/
theorem Stmt.filter_paramSites_top (s : Stmt) :
    ((s.paramSites []).filter ParamSite.inTopCtor).map ParamSite.param =
      (s.class?.toList.filter (!·.isAbstract)).flatMap fun c => c.ctors.flatMap CtorDecl.params := by
  cases s with
  | classDecl c =>
    obtain ⟨_, isAbstract, name, _, members, _⟩ := c
    rw [Stmt.paramSites, Member.filter_paramSitesAll members]
    cases isAbstract with
    | true => simp [Stmt.class?]
    | false => simp [Stmt.class?, ClassDecl.ctors, List.map_flatMap]
  | _ =>
    rw [Stmt.filter_paramSites _ [] (Or.inl rfl)]
    rfl

/-! ## §4 The check reports what is expected -/

/-- To have a storage modifier is to have one of the two. -/
theorem Param.hasStorage_eq (p : Param) :
    p.hasStorage = (p.hasModifier (.storage .var) || p.hasModifier (.storage .final)) := by
  have hkey : ∀ k : Keyword, k.isStorage = true ↔ k = .storage .var ∨ k = .storage .final := by
    intro k
    rcases k with (_ | _) | (_ | _) | _ <;> simp [Keyword.isStorage]
  rw [Bool.eq_iff_iff]
  simp [Param.hasStorage, Param.hasModifier, hkey, and_or_left, exists_or]

/-- Where modifiers may not be, the check of a parameter reports its error. -/
theorem ParamSite.error?_eq {s : ParamSite} (h : s.inTopCtor = false) :
    s.error? = s.param.misplaced? s.place := by
  unfold ParamSite.error? Param.misplaced?
  cases hm : s.param.modifiers with
  | nil => simp [Param.hasStorage, hm]
  | cons first rest => simp [h, Param.hasStorage_eq]

/-- Where modifiers may be, none is reported. -/
theorem ParamSite.error?_eq_none {s : ParamSite} (h : s.inTopCtor = true) : s.error? = none := by
  unfold ParamSite.error?
  cases s.param.modifiers <;> simp [h]

/-- At all other sites, what is expected of the parameters is what the check says about them, if it
is given the right place. -/
theorem Param.filterMap_sitesAt {scopes : List Scope} {place : Place} (ps : List Param)
    (hplace : ∀ p, (⟨scopes, p⟩ : ParamSite).place = place)
    (htop : ∀ p, (⟨scopes, p⟩ : ParamSite).inTopCtor = false) :
    (Param.sitesAt scopes ps).filterMap ParamSite.error? = Param.misplacedAll place ps := by
  rw [Param.sitesAt, Param.misplacedAll, List.filterMap_map]
  refine List.filterMap_congr fun p _ => ?_
  rw [Function.comp, ParamSite.error?_eq (htop p), hplace p]

theorem Param.filterMap_sitesAt_function (name : String) (outer : List Scope)
    (ps : List Param) :
    (Param.sitesAt (.function name :: outer) ps).filterMap ParamSite.error? =
      Param.misplacedAll (.function name) ps :=
  Param.filterMap_sitesAt ps (fun _ => rfl) (fun _ => rfl)

theorem Param.filterMap_sitesAt_method (name cls : String) (isAbstract : Bool)
    (outer : List Scope) (ps : List Param) :
    (Param.sitesAt (.method name :: .cls cls isAbstract :: outer) ps).filterMap ParamSite.error? =
      Param.misplacedAll (.method cls name) ps :=
  Param.filterMap_sitesAt ps (fun _ => rfl) (fun _ => rfl)

theorem Param.filterMap_sitesAt_ctor (cls : String) (isAbstract : Bool) (outer : List Scope)
    (ps : List Param) :
    (Param.sitesAt (.ctor :: .cls cls isAbstract :: outer) ps).filterMap ParamSite.error? =
      Param.misplacedInCtor cls isAbstract outer.isEmpty ps := by
  cases isAbstract with
  | true =>
    -- an abstract class, local or not
    exact Param.filterMap_sitesAt ps (fun _ => rfl) (fun _ => rfl)
  | false =>
    cases outer with
    | nil =>
      -- the only place for modifiers
      show _ = []
      rw [Param.sitesAt, List.filterMap_map, List.filterMap_eq_nil_iff]
      intro p _
      exact ParamSite.error?_eq_none rfl
    | cons scope outer =>
      exact Param.filterMap_sitesAt ps (fun _ => rfl) (fun _ => rfl)

-- The induction follows the tree. Only for a class it matters whether it stands directly in the
-- module, that is, whether nothing is around it.
mutual

/-- The misplaced modifiers of a statement are those that its sites do not allow. -/
theorem Stmt.misplaced_eq_sites : (s : Stmt) → (outer : List Scope) →
    (s.class? = none ∨ outer ≠ []) →
    s.misplaced = (s.paramSites outer).filterMap ParamSite.error?
  | .varDecl _, _, _ => by rw [Stmt.misplaced, Stmt.paramSites, List.filterMap_nil]
  | .funDecl ⟨name, params, _, ⟨statements, _⟩, _⟩, outer, _ => by
    rw [Stmt.misplaced, Stmt.paramSites, List.filterMap_append,
      Param.filterMap_sitesAt_function,
      Stmt.misplacedAll_eq_sites statements _ (List.cons_ne_nil _ _)]
  | .classDecl ⟨_, isAbstract, name, _, members, _⟩, outer, h => by
    rw [Stmt.misplaced, Stmt.paramSites, ← Member.misplacedAll_eq_sites members,
      Stmt.isEmpty_of_class h]
  | .expr _ _, _, _ => by rw [Stmt.misplaced, Stmt.paramSites, List.filterMap_nil]
  | .cond _ t none _, outer, _ => by
    rw [Stmt.misplaced, Stmt.paramSites, Stmt.misplaced_eq_sites t _ (Or.inr (List.cons_ne_nil _ _))]
  | .cond _ t (some e) _, outer, _ => by
    rw [Stmt.misplaced, Stmt.paramSites, List.filterMap_append,
      Stmt.misplaced_eq_sites t _ (Or.inr (List.cons_ne_nil _ _)),
      Stmt.misplaced_eq_sites e _ (Or.inr (List.cons_ne_nil _ _))]
  | .loop _ body _, outer, _ => by
    rw [Stmt.misplaced, Stmt.paramSites,
      Stmt.misplaced_eq_sites body _ (Or.inr (List.cons_ne_nil _ _))]
  | .ret _ _, _, _ => by rw [Stmt.misplaced, Stmt.paramSites, List.filterMap_nil]
  | .block ⟨statements, _⟩, outer, _ => by
    rw [Stmt.misplaced, Stmt.paramSites,
      Stmt.misplacedAll_eq_sites statements _ (List.cons_ne_nil _ _)]
  | .empty _, _, _ => by rw [Stmt.misplaced, Stmt.paramSites, List.filterMap_nil]

theorem Stmt.misplacedAll_eq_sites : (ss : List Stmt) → (outer : List Scope) → outer ≠ [] →
    Stmt.misplacedAll ss = (Stmt.paramSitesAll outer ss).filterMap ParamSite.error?
  | [], _, _ => by rw [Stmt.misplacedAll, Stmt.paramSitesAll, List.filterMap_nil]
  | s :: ss, outer, h => by
    rw [Stmt.misplacedAll, Stmt.paramSitesAll, List.filterMap_append,
      Stmt.misplaced_eq_sites s outer (Or.inr h), Stmt.misplacedAll_eq_sites ss outer h]

/-- So are those of a member, where the classes around it decide whether it is at the top level. -/
theorem Member.misplaced_eq_sites : (m : Member) → (cls : String) → (isAbstract : Bool) →
    (outer : List Scope) → m.misplaced cls isAbstract outer.isEmpty =
      (m.paramSites (.cls cls isAbstract :: outer)).filterMap ParamSite.error?
  | .field _, _, _, _ => by rw [Member.misplaced, Member.paramSites, List.filterMap_nil]
  | .method ⟨_, _, _, _, name, params, _, none, _⟩, cls, isAbstract, outer => by
    rw [Member.misplaced, Member.paramSites, Param.filterMap_sitesAt_method]
  | .method ⟨_, _, _, _, name, params, _, some ⟨statements, _⟩, _⟩, cls, isAbstract, outer => by
    rw [Member.misplaced, Member.paramSites, List.filterMap_append,
      Param.filterMap_sitesAt_method,
      Stmt.misplacedAll_eq_sites statements _ (List.cons_ne_nil _ _)]
  | .ctor ⟨params, ⟨statements, _⟩, _⟩, cls, isAbstract, outer => by
    rw [Member.misplaced, Member.paramSites, List.filterMap_append,
      Param.filterMap_sitesAt_ctor,
      Stmt.misplacedAll_eq_sites statements _ (List.cons_ne_nil _ _)]

theorem Member.misplacedAll_eq_sites : (ms : List Member) → (cls : String) →
    (isAbstract : Bool) → (outer : List Scope) →
    Member.misplacedAll cls isAbstract outer.isEmpty ms =
      (Member.paramSitesAll (.cls cls isAbstract :: outer) ms).filterMap ParamSite.error?
  | [], _, _, _ => by rw [Member.misplacedAll, Member.paramSitesAll, List.filterMap_nil]
  | m :: ms, cls, isAbstract, outer => by
    rw [Member.misplacedAll, Member.paramSitesAll, List.filterMap_append,
      Member.misplaced_eq_sites m, Member.misplacedAll_eq_sites ms]

end

/-- At the top level of a module nothing is around a statement. -/
theorem Stmt.misplacedTop_eq_sites (s : Stmt) :
    s.misplacedTop = (s.paramSites []).filterMap ParamSite.error? := by
  cases s with
  | classDecl c =>
    obtain ⟨_, isAbstract, name, _, members, _⟩ := c
    rw [Stmt.paramSites, ← Member.misplacedAll_eq_sites members]
    rfl
  | _ => exact Stmt.misplaced_eq_sites _ [] (Or.inl rfl)

theorem Stmt.paramSitesAll_eq_flatMap (outer : List Scope) (ss : List Stmt) :
    Stmt.paramSitesAll outer ss = ss.flatMap (Stmt.paramSites outer) := by
  induction ss with
  | nil => rfl
  | cons s ss ih => rw [Stmt.paramSitesAll, ih, List.flatMap_cons]

/-- A top level statement has misplaced modifiers when one of its sites has an error. -/
theorem Stmt.misplacedTop_ne_nil_iff (s : Stmt) :
    s.misplacedTop ≠ [] ↔ ∃ site ∈ s.paramSites [], site.error? ≠ none := by
  rw [s.misplacedTop_eq_sites, ne_eq, List.filterMap_eq_nil_iff]
  push Not
  rfl

/-- The sites that may have modifiers are the constructor parameters of the concrete classes of the
module. -/
theorem Module.filter_paramSites (m : Module) :
    (m.paramSites.filter ParamSite.inTopCtor).map ParamSite.param =
      (m.classes.filter (!·.isAbstract)).flatMap fun c => c.ctors.flatMap CtorDecl.params := by
  rw [Module.paramSites, Stmt.paramSitesAll_eq_flatMap, Module.classes,
    List.filterMap_eq_flatMap_toList, List.filter_flatMap, List.filter_flatMap,
    List.flatMap_assoc, List.map_flatMap]
  exact List.flatMap_congr fun s _ => s.filter_paramSites_top

/-- The check of a module, with its stack of classes and its marks, finds what the tree says by itself.
It goes through all parameters as a traversal comes to them, and reports the error of each one that has
an error. Only the parameters of constructors of concrete classes that stand directly in the module may
have modifiers. The failed classes, noted once each and in order, are those that contain a parameter with
an error. -/
theorem Module.checkContexts_eq_filterMap_paramSites (m : Module) :
    m.checkContexts = { errors := m.misplaced, failed := m.spoiltClasses } ∧
      m.checkContexts.errors = m.paramSites.filterMap ParamSite.error? ∧
      m.paramSites.map ParamSite.param = Visit.params (m.visits Visit.everywhere) ∧
      (m.paramSites.filter ParamSite.inTopCtor).map ParamSite.param =
        ((m.classes.filter (!·.isAbstract)).flatMap fun c => c.ctors.flatMap CtorDecl.params) ∧
      m.checkContexts.failed.Pairwise (· < ·) ∧
      ∀ i, i ∈ m.checkContexts.failed ↔ ∃ c, m.classAt? i = some c ∧
        ∃ s ∈ (Stmt.classDecl c).paramSites [], s.error? ≠ none := by
  refine ⟨m.checkContexts_eq, ?_, ?_, m.filter_paramSites, ?_, fun i => ?_⟩
  · rw [m.errors_checkContexts, Module.misplaced, Module.paramSites, Stmt.paramSitesAll_eq_flatMap,
      List.filterMap_flatMap]
    exact List.flatMap_congr fun s _ => s.misplacedTop_eq_sites
  · rw [Module.paramSites, Stmt.map_paramSitesAll, m.params_visits, Module.params]
  · -- positions come in the order of the statements
    have hpositions : (m.statements.zipIdx.map Prod.snd).Pairwise (· < ·) := by
      rw [List.zipIdx_map_snd]
      exact List.pairwise_lt_range'
    rw [m.checkContexts_eq]
    exact hpositions.sublist (List.filter_sublist.map Prod.snd)
  · rw [Module.mem_failed_checkContexts]
    refine exists_congr fun c => and_congr_right fun _ => ?_
    exact Stmt.misplacedTop_ne_nil_iff _

end FieldPromotion
