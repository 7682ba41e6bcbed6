import FieldPromotion.Proofs.Roles
import FieldPromotion.Proofs.Steps

/-!
# The hand-written class

A class with argument fields stands for a class that could have been written by hand: the fields are
declared among the members, the parameters of the constructor are plain, and the body of the
constructor assigns them. This is said here of the two classes alone, without the steps that lead from
one to the other, and promotion is shown to give that class or to leave the class as it is.
-/

namespace FieldPromotion

/-! ## §1 The parts of the class written by hand -/

/-- The argument fields of a constructor, in the order of its parameters. -/
def CtorDecl.argumentFields (k : CtorDecl) : List Param :=
  k.params.filter Param.hasStorage

/-- The argument fields of a class. -/
def ClassDecl.argumentFields (c : ClassDecl) : List Param :=
  c.ctors.flatMap CtorDecl.argumentFields

theorem ClassDecl.argumentFields_of_ctors {c : ClassDecl} {ctor : CtorDecl}
    (h : c.ctors = [ctor]) : c.argumentFields = ctor.params.filter Param.hasStorage := by
  rw [ClassDecl.argumentFields, h, List.flatMap_singleton, CtorDecl.argumentFields]

/-- A field is the one that an argument field stands for. -/
structure Param.Declares (default : Visibility) (p : Param) (f : FieldDecl) : Prop where
  name : f.name = p.name
  type : f.type = p.type
  span : f.span = p.span
  metadata : f.metadata = p.metadata
  storage : .storage f.storage ∈ p.keywords
  visibility : .visibility f.visibility ∈ p.keywords ∨
    (∀ v, .visibility v ∉ p.keywords) ∧ f.visibility = default
  notStatic : f.isStatic = false
  uninitialized : f.init = none

/-- A parameter and the one written by hand: the annotations and modifiers of an argument field are
gone, and everything else stays. -/
structure Param.WrittenOut (p q : Param) : Prop where
  name : q.name = p.name
  type : q.type = p.type
  defaultValue : q.defaultValue = p.defaultValue
  span : q.span = p.span
  emptied : p.hasStorage = true → q.metadata = [] ∧ q.modifiers = []
  kept : p.hasStorage = false → q.metadata = p.metadata ∧ q.modifiers = p.modifiers

/-- The first part of a body is its leading `super(...)`, or nothing if there is none. -/
def SplitsAtSuper (lead rest : List Stmt) : Prop :=
  (∃ s, lead = [s] ∧ s.isSuperCall = true) ∨ lead = [] ∧ ∀ s ∈ rest.head?, s.isSuperCall = false

/-- A constructor and the one written by hand, which assigns each argument field after `super(...)`. -/
structure CtorDecl.WrittenOut (k k' : CtorDecl) : Prop where
  params : List.Forall₂ Param.WrittenOut k.params k'.params
  span : k'.span = k.span
  bodySpan : k'.body.span = k.body.span
  body : ∃ lead rest, k.body.statements = lead ++ rest ∧ SplitsAtSuper lead rest ∧
    k'.body.statements =
      lead ++ k.argumentFields.map (fun p => fieldAssignment p.name) ++ rest

/-- A member and the one written by hand. -/
inductive Member.WrittenOut : Member → Member → Prop
  | field (f : FieldDecl) : WrittenOut (.field f) (.field f)
  | method (m : MethodDecl) : WrittenOut (.method m) (.method m)
  | ctor {k k' : CtorDecl} (h : k.WrittenOut k') : WrittenOut (.ctor k) (.ctor k')

/-- The members before and after the place of new fields: after the last field or before the first one,
and before all members if there is no field. -/
def FieldOrder.Divides : FieldOrder → List Member → List Member → Prop
  | .append, pre, post => (∀ x ∈ post, x.isField = false) ∧ ∀ x ∈ pre.getLast?, x.isField = true
  | .prepend, pre, post => (∀ x ∈ pre, x.isField = false) ∧
      ((∃ x ∈ post.head?, x.isField = true) ∨ pre = [] ∧ ∀ x ∈ post, x.isField = false)

/-- A class and the one written by hand, in which the given fields stand for the argument fields. -/
structure ClassDecl.WrittenOut (c : ClassDecl) (options : Options) (fields : List FieldDecl)
    (c' : ClassDecl) : Prop where
  name : c'.name = c.name
  superclass : c'.superclass = c.superclass
  isAbstract : c'.isAbstract = c.isAbstract
  metadata : c'.metadata = c.metadata
  span : c'.span = c.span
  declared : List.Forall₂ (Param.Declares options.defaultVisibility) c.argumentFields fields
  members : ∃ pre post, c'.members = pre ++ fields.map .field ++ post ∧
    options.fieldOrder.Divides pre post ∧ List.Forall₂ Member.WrittenOut c.members (pre ++ post)

/-! ## §2 Aligned parameters, roles and fields -/

section Aligned

variable {ps : List Param} {rs : List Role}

theorem Param.declares_toField {p : Param} {c : Candidate} (h : p.role = .ok (.field c))
    (default : Visibility) : p.Declares default (p.toField c default) := by
  obtain ⟨-, ⟨-, hr⟩ | ⟨storage, hs, hr⟩⟩ := Param.role_eq_ok_iff.mp h
  · cases hr
  · cases hr
    exact {
      name := rfl
      type := rfl
      span := rfl
      metadata := rfl
      storage := Param.storage_mem_keywords hs
      visibility := p.visibility_mem_keywords default rfl
      notStatic := rfl
      uninitialized := rfl }

theorem Param.writtenOut_afterPromotion {p : Param} {r : Role} (h : p.role = .ok r) :
    p.WrittenOut (p.afterPromotion r) := by
  have hstorage := Param.hasStorage_of_role h
  cases r with
  | plain =>
    have hno : p.hasStorage = false := hstorage
    refine ⟨rfl, rfl, rfl, rfl, ?_, fun _ => ⟨rfl, rfl⟩⟩
    simp [hno]
  | field c =>
    have hyes : p.hasStorage = true := hstorage
    refine ⟨rfl, rfl, rfl, rfl, fun _ => ⟨rfl, rfl⟩, ?_⟩
    simp [hyes]

/-- The promoted fields stand for the argument fields, one by one and in their order. Plain parameters
in between do not matter. -/
theorem forall₂_declares_promotedFields (h : List.Forall₂ (fun p r => p.role = .ok r) ps rs)
    (options : Options) :
    List.Forall₂ (Param.Declares options.defaultVisibility) (ps.filter Param.hasStorage)
      (promotedFields options (ps.zip rs)) := by
  -- along the parameters and their roles at once: both lists go on together, or neither does
  induction h with
  | nil => exact List.Forall₂.nil
  | @cons p r ps rs hr _ ih =>
    have hstorage := Param.hasStorage_of_role hr
    cases r with
    | plain =>
      have hno : p.hasStorage = false := hstorage
      rw [List.filter_cons, hno]
      exact ih
    | field c =>
      have hyes : p.hasStorage = true := hstorage
      rw [List.filter_cons, hyes]
      exact List.Forall₂.cons (Param.declares_toField hr _) ih

theorem forall₂_writtenOut_afterPromotion (h : List.Forall₂ (fun p r => p.role = .ok r) ps rs) :
    List.Forall₂ Param.WrittenOut ps ((ps.zip rs).map fun pr => pr.1.afterPromotion pr.2) := by
  induction h with
  | nil => exact List.Forall₂.nil
  | cons hr _ ih => exact List.Forall₂.cons (Param.writtenOut_afterPromotion hr) ih

/-- Aligned fields have the names of the argument fields. -/
theorem map_name_of_declares {default : Visibility} {fields : List FieldDecl}
    (h : List.Forall₂ (Param.Declares default) ps fields) :
    fields.map FieldDecl.name = ps.map Param.name := by
  induction h with
  | nil => rfl
  | cons hp _ ih => rw [List.map_cons, List.map_cons, hp.name, ih]

theorem candidateNames_zip (h : List.Forall₂ (fun p r => p.role = .ok r) ps rs) :
    candidateNames (ps.zip rs) = (ps.filter Param.hasStorage).map (·.name.name) := by
  -- no name depends on the options, so any will do
  have hnames := map_name_of_declares (forall₂_declares_promotedFields h {})
  calc candidateNames (ps.zip rs)
    _ = ((promotedFields {} (ps.zip rs)).map FieldDecl.name).map Ident.name := by
      rw [← map_name_promotedFields {}, List.map_map]
      rfl
    _ = (ps.filter Param.hasStorage).map (·.name.name) := by
      rw [hnames, List.map_map]
      rfl

end Aligned

/-! ## §3 Places -/

/-- The body of a constructor is split at the place of the assignments. -/
theorem splitsAtSuper_assignmentPoint (body : List Stmt) :
    SplitsAtSuper (body.take (assignmentPoint body)) (body.drop (assignmentPoint body)) := by
  cases body with
  | nil => exact Or.inr ⟨rfl, by simp⟩
  | cons s rest =>
    cases hs : s.isSuperCall with
    | true =>
      refine Or.inl ⟨s, ?_, hs⟩
      simp [assignmentPoint, hs]
    | false =>
      refine Or.inr ⟨?_, ?_⟩
      · simp [assignmentPoint, hs]
      · simp [assignmentPoint, hs]

theorem take_of_findIdx? {α : Type} {q : α → Bool} {xs : List α} {i : Nat}
    (h : xs.findIdx? q = some i) :
    (∀ x ∈ xs.take i, q x = false) ∧ ∃ x, xs[i]? = some x ∧ q x = true := by
  obtain ⟨hi, hx, hbefore⟩ := List.findIdx?_eq_some_iff_getElem.mp h
  refine ⟨?_, xs[i], List.getElem?_eq_getElem hi, hx⟩
  intro x hmem
  obtain ⟨j, hj, rfl⟩ := List.mem_take_iff_getElem.mp hmem
  simpa using hbefore j (by omega)

/-- The members are split at the place of the new fields. -/
theorem divides_fieldPoint (order : FieldOrder) (members : List Member) :
    order.Divides (members.take (fieldPoint order members))
      (members.drop (fieldPoint order members)) := by
  cases order with
  | append =>
    cases hidx : members.reverse.findIdx? Member.isField with
    | none =>
      have hpoint : fieldPoint .append members = 0 := by simp [fieldPoint, hidx]
      rw [List.findIdx?_eq_none_iff] at hidx
      rw [hpoint]
      refine ⟨?_, by simp⟩
      intro x hx
      exact hidx x (List.mem_reverse.mpr hx)
    | some i =>
      -- the last field is the first one from the end
      have hpoint : fieldPoint .append members = members.length - i := by simp [fieldPoint, hidx]
      obtain ⟨hbefore, y, hy, hfield⟩ := take_of_findIdx? hidx
      rw [hpoint]
      refine ⟨?_, ?_⟩
      · intro x hx
        apply hbefore
        rwa [List.take_reverse, List.mem_reverse]
      · rw [← List.head?_reverse, ← List.drop_reverse, List.head?_drop, hy]
        simpa using hfield
  | prepend =>
    cases hidx : members.findIdx? Member.isField with
    | none =>
      have hpoint : fieldPoint .prepend members = 0 := by simp [fieldPoint, hidx]
      rw [hpoint]
      exact ⟨by simp, Or.inr ⟨rfl, List.findIdx?_eq_none_iff.mp hidx⟩⟩
    | some i =>
      have hpoint : fieldPoint .prepend members = i := by simp [fieldPoint, hidx]
      obtain ⟨hbefore, y, hy, hfield⟩ := take_of_findIdx? hidx
      rw [hpoint]
      refine ⟨hbefore, Or.inl ⟨y, ?_, hfield⟩⟩
      rw [List.head?_drop, hy]
      rfl

/-! ## §4 The class after promotion -/

theorem CtorDecl.writtenOut_promote {ctor : CtorDecl} {roles : List Role}
    (hroles : Param.roles ctor.params = .ok roles) (options : Options) :
    ctor.WrittenOut (ctor.promote (ctor.params.zip roles)
      (promotedFields options (ctor.params.zip roles))) := by
  have haligned := Param.roles_eq_ok_iff.mp hroles
  have hnames := map_name_of_declares (forall₂_declares_promotedFields haligned options)
  refine ⟨forall₂_writtenOut_afterPromotion haligned, rfl, rfl, ?_⟩
  -- the assignments are made from the names of the fields, which are those of the parameters
  refine ⟨_, _, (List.take_append_drop _ _).symm, splitsAtSuper_assignmentPoint _, ?_⟩
  show assigning _ ctor.body.statements = _
  rw [hnames, assigning, insertAt, List.map_map]
  rfl

theorem ClassDecl.writtenOut_promoteWith {c : ClassDecl} {ctor : CtorDecl} {roles : List Role}
    (hctors : c.ctors = [ctor]) (hroles : Param.roles ctor.params = .ok roles) (options : Options) :
    c.WrittenOut options (promotedFields options (ctor.params.zip roles))
      (c.promoteWith options ctor (ctor.params.zip roles)).decl := by
  have haligned := Param.roles_eq_ok_iff.mp hroles
  refine ⟨rfl, rfl, rfl, rfl, rfl, ?_, ?_⟩
  · rw [ClassDecl.argumentFields_of_ctors hctors]
    exact forall₂_declares_promotedFields haligned options
  · -- the place is looked for after the constructor was replaced
    refine ⟨_, _, rfl, divides_fieldPoint _ _, ?_⟩
    rw [List.take_append_drop, List.forall₂_map_right_iff, List.forall₂_same]
    intro x hx
    cases x with
    | field f => exact .field f
    | method m => exact .method m
    | ctor k =>
      -- the only constructor there is
      have hk : k ∈ c.ctors := List.mem_filterMap.mpr ⟨.ctor k, hx, rfl⟩
      obtain rfl : k = ctor := by simpa [hctors] using hk
      exact .ctor (CtorDecl.writtenOut_promote hroles options)

/-- A class without constructor is its own hand-written class. -/
theorem ClassDecl.writtenOut_self {c : ClassDecl} (hctors : c.ctors = []) (options : Options) :
    c.WrittenOut options [] c := by
  refine ⟨rfl, rfl, rfl, rfl, rfl, ?_, ?_⟩
  · rw [ClassDecl.argumentFields, hctors]
    exact List.Forall₂.nil
  · refine ⟨_, _, ?_, divides_fieldPoint _ c.members, ?_⟩
    · simp
    · rw [List.take_append_drop, List.forall₂_same]
      intro x hx
      cases x with
      | field f => exact .field f
      | method m => exact .method m
      | ctor k =>
        have hk : k ∈ c.ctors := List.mem_filterMap.mpr ⟨.ctor k, hx, rfl⟩
        simp [hctors] at hk

/-! ## §5 When there is a hand-written class -/

/-- Nothing stands against the argument fields of a class: there is at most one constructor, the
modifiers of its parameters fit together, and the names of the argument fields are new to the class and
to each other. -/
structure ClassDecl.Promotable (c : ClassDecl) (index : FieldIndex) : Prop where
  single : c.ctors.length ≤ 1
  proper : ∀ k ∈ c.ctors, ∀ p ∈ k.params, p.Proper
  fresh : ∀ p ∈ c.argumentFields, index.get? p.name.name = none
  distinct : (c.argumentFields.map (·.name.name)).Nodup

theorem ClassDecl.exists_promote_iff {c : ClassDecl} {index : FieldIndex} (options : Options) :
    (∃ new, c.promote index options = .ok new) ↔ c.Promotable index := by
  simp only [ClassDecl.promote_eq_ok_iff]
  constructor
  · intro h
    obtain ⟨new, ⟨hctors, -⟩ | ⟨ctor, roles, hctors, hroles, hclash, -⟩⟩ := h
    · exact ⟨by simp [hctors], by simp [hctors], by simp [ClassDecl.argumentFields, hctors],
        by simp [ClassDecl.argumentFields, hctors]⟩
    · have haligned := Param.roles_eq_ok_iff.mp hroles
      have hproper := Param.exists_roles_iff.mp ⟨roles, hroles⟩
      obtain ⟨hfresh, hnodup⟩ := Param.clashes_eq_nil_iff.mp hclash
      rw [candidateNames_zip haligned] at hfresh hnodup
      have hfields := ClassDecl.argumentFields_of_ctors hctors
      refine ⟨by simp [hctors], by simpa [hctors] using hproper, ?_, by rwa [hfields]⟩
      intro p hp
      rw [hfields] at hp
      exact (hfresh _ (List.mem_map_of_mem hp)).1
  · intro h
    rcases hctors : c.ctors with _ | ⟨ctor, _ | ⟨extra, rest⟩⟩
    · exact ⟨{ decl := c }, Or.inl ⟨rfl, rfl⟩⟩
    · obtain ⟨roles, hroles⟩ := Param.exists_roles_iff.mpr (h.proper ctor (by simp [hctors]))
      have haligned := Param.roles_eq_ok_iff.mp hroles
      have hfields := ClassDecl.argumentFields_of_ctors hctors
      -- the class has roles for all parameters, so what is left to show is that nothing clashes
      refine ⟨_, Or.inr ⟨ctor, roles, rfl, hroles, ?_, rfl⟩⟩
      -- no name is in sight, none is used twice, and there is nothing earlier that could clash
      rw [Param.clashes_eq_nil_iff, candidateNames_zip haligned, ← hfields]
      refine ⟨?_, h.distinct⟩
      intro n hn
      obtain ⟨p, hp, rfl⟩ := List.mem_map.mp hn
      exact ⟨h.fresh p hp, rfl⟩
    · have hsingle := h.single
      simp [hctors] at hsingle

/-- A run in which the class is tried with these fields in sight puts `c'` in its place, and leaves
all other statements as they are. -/
def ClassDecl.TurnsInto (c : ClassDecl) (index : FieldIndex) (options : Options) (c' : ClassDecl) :
    Prop :=
  ∀ (p : Progress) (spoilt : List Nat) (id : ClassId) (t : Trial),
    p.trial? options spoilt id = some t → t.cls.decl = c → p.table.fieldIndex id = index →
      (p.step options spoilt id).statements = p.statements.set t.cls.position (.classDecl c')

theorem ClassDecl.turnsInto_of_ok {c : ClassDecl} {index : FieldIndex} {options : Options}
    {new : Promoted} (h : c.promote index options = .ok new) :
    c.TurnsInto index options new.decl := by
  intro p spoilt id t ht hcls hindex
  obtain ⟨-, -, -, -, -, hresult⟩ := Progress.trial?_eq_some_iff.mp ht
  rw [hcls, hindex, h] at hresult
  rw [Progress.step_of_trial ht, ← hresult]
  rfl

theorem ClassDecl.turnsInto_of_error {c : ClassDecl} {index : FieldIndex} {options : Options}
    {errors : List Error} (h : c.promote index options = .error errors) :
    c.TurnsInto index options c := by
  intro p spoilt id t ht hcls hindex
  obtain ⟨-, hclass, -, -, -, hresult⟩ := Progress.trial?_eq_some_iff.mp ht
  rw [hcls, hindex, h] at hresult
  rw [Progress.step_of_trial ht, ← hresult]
  -- the class stands there already
  rw [hcls] at hclass
  exact congrArg Progress.statements (Progress.put_eq_self hclass).symm

/-- The edit of a class leaves the hand-written one in its place if nothing stands against its argument
fields. In every other case it ends with at least one error, and the class is as it was. -/
theorem ClassDecl.writtenOut_or_left (c : ClassDecl) (index : FieldIndex) (options : Options) :
    (c.Promotable index ∧ ∃ new fields,
      (edit index options).run c = .ok (new.fields, new.events) new.decl ∧
      c.promote index options = .ok new ∧
      new.fields = fields.map FieldDecl.summary ∧ c.WrittenOut options fields new.decl ∧
      c.TurnsInto index options new.decl) ∨
    (¬ c.Promotable index ∧ ∃ errors, (edit index options).run c = .error errors c ∧
      c.promote index options = .error errors ∧ errors ≠ [] ∧ c.TurnsInto index options c) := by
  cases hresult : c.promote index options with
  | ok new =>
    refine Or.inl ⟨(ClassDecl.exists_promote_iff options).mp ⟨new, hresult⟩, new, ?_⟩
    have hrun := ClassDecl.run_edit_of_promote_ok hresult
    have hturns := ClassDecl.turnsInto_of_ok hresult
    -- a class without constructor is written out as it is
    rcases ClassDecl.promote_eq_ok_iff.mp hresult with
      ⟨hctors, rfl⟩ | ⟨ctor, roles, hctors, hroles, -, rfl⟩
    · exact ⟨[], hrun, rfl, rfl, ClassDecl.writtenOut_self hctors options, hturns⟩
    · exact ⟨_, hrun, rfl, rfl, ClassDecl.writtenOut_promoteWith hctors hroles options, hturns⟩
  | error errors =>
    refine Or.inr ⟨?_, errors, ClassDecl.run_edit_of_promote_error hresult, rfl,
      (ClassDecl.promote_eq_error_iff.mp hresult).1, ClassDecl.turnsInto_of_error hresult⟩
    intro h
    obtain ⟨new, hnew⟩ := (ClassDecl.exists_promote_iff options).mpr h
    rw [hresult] at hnew
    cases hnew

end FieldPromotion
