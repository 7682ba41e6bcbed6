import FieldPromotion.Proofs.ErrorCodes
import FieldPromotion.Proofs.Labels
import FieldPromotion.Tree.Build

/-!
# Collisions with fields of the host

Where a duplicate field was declared first, and where its diagnostic points. The name of an argument field
is held by the nearest field in sight, in a class of the module or of the host, or else by an earlier
argument field of the same constructor. The error keeps no more of that than the name of the class and a
span, and a diagnostic takes the span for a place in the source unless it is empty. So it stays within the
source for a field of the host exactly if the host registered the field with an empty span.
-/

namespace FieldPromotion

/-! ## §1 The nearest field of a name -/

/-- `NearestField ws name w f`: of the classes `ws`, listed nearest first, `w` is the first that has a field
of that name, and `f` is its first one. -/
def NearestField (ws : List Meaning) (name : String) (w : Meaning) (f : FieldSite) : Prop :=
  ∃ before after, ws = before ++ w :: after ∧ (∀ v ∈ before, ∀ g ∈ v.sites, g.name ≠ name) ∧
    w.sites.find? (·.name == name) = some f

theorem NearestField.mem {ws : List Meaning} {name : String} {w : Meaning} {f : FieldSite}
    (h : NearestField ws name w f) : w ∈ ws := by
  obtain ⟨before, after, rfl, -, -⟩ := h
  exact List.mem_append_right before List.mem_cons_self

theorem nearest?_eq_some_iff {ws : List Meaning} {name cls : String} {s : Span} :
    nearest? (ws.map fun w => (w.name, w.sites)) name = some (cls, s) ↔
      ∃ w f, NearestField ws name w f ∧ w.name = cls ∧ f.span = s := by
  rw [nearest?, List.findSome?_map, List.findSome?_eq_some_iff]
  simp only [Function.comp_apply, Option.map_eq_none_iff, Option.map_eq_some_iff,
    List.find?_eq_none, beq_iff_eq]
  constructor
  · intro h
    obtain ⟨before, w, after, rfl, ⟨f, hf, hsite⟩, hbefore⟩ := h
    obtain ⟨hcls, hspan⟩ := Prod.mk.inj hsite
    exact ⟨w, f, ⟨before, after, rfl, hbefore, hf⟩, hcls, hspan⟩
  · intro h
    obtain ⟨w, f, ⟨before, after, rfl, hbefore, hf⟩, rfl, rfl⟩ := h
    exact ⟨before, w, after, rfl, ⟨f, hf, rfl⟩, hbefore⟩

/-- An index that shows the fields of some classes finds a name where its nearest field is. -/
theorem FieldIndex.Shows.get?_eq_some_iff {index : FieldIndex} {ws : List Meaning} {name cls : String}
    {s : Span} (h : index.Shows (ws.map fun w => (w.name, w.sites))) :
    (∃ o, index.get? name = some o ∧ o.className = cls ∧ o.span = s) ↔
      ∃ w f, NearestField ws name w f ∧ w.name = cls ∧ f.span = s := by
  rw [← nearest?_eq_some_iff, ← h name, FieldIndex.origin?]
  simp

namespace Module

variable {out : Module} {hosts : List HostClass} {d : Declared} {ns : List String}
  {s : Option String}

/-- The classes whose fields are in sight of `d`: itself and the classes `ns` above it, as they are in `out`
and in the host. -/
def inSight (out : Module) (hosts : List HostClass) (d : Declared) (ns : List String) : List Meaning :=
  .own d :: ns.filterMap (out.meaning hosts)

theorem Chain.map_sitesOf (h : out.Chain hosts s ns) : (ns.map fun n => (n, out.sitesOf hosts n)) =
    (ns.filterMap (out.meaning hosts)).map fun w => (w.name, w.sites) := by
  induction h with
  | root _ => rfl
  | @link n w ns hw _ ih =>
    have hsites : out.sitesOf hosts n = w.sites := by simp [sitesOf, hw]
    rw [List.map_cons, List.filterMap_cons_some hw, List.map_cons, ih, hsites, name_of_meaning hw]

theorem Chain.lineage_eq (h : out.Chain hosts d.superclass ns) : out.lineage hosts d ns =
    (out.inSight hosts d ns).map fun w => (w.name, w.sites) := by
  rw [lineage, h.map_sitesOf]
  rfl

end Module

/-! ## §2 What holds a name -/

/-- What can hold the name of an argument field: a field of a class, or an earlier argument field of the
same constructor. -/
inductive Holder where
  | field (w : Meaning) (f : FieldSite)
  | param (q : Param)

/-- What an error tells of a holder: the name of its class, which is `d` for a parameter, and where it
stands. -/
def Holder.origin (d : Declared) : Holder → String × Span
  | .field w f => (w.name, f.span)
  | .param q => (d.name, q.name.span)

/-- The parameter `p` at position `i` of a constructor is written with `var` or `final`. -/
def CtorDecl.ArgumentAt (k : CtorDecl) (i : Nat) (p : Param) : Prop :=
  k.params[i]? = some p ∧ p.hasStorage = true

/-- With all roles known, the argument fields are the parameters written with `var` or `final`. -/
theorem CtorDecl.candidateAt_iff_argumentAt {k : CtorDecl} {roles : List Role} {i : Nat} {p : Param}
    (h : Param.roles k.params = .ok roles) : CandidateAt k.params roles i p ↔ k.ArgumentAt i p := by
  apply and_congr_right
  intro hp
  -- the role at that position is the one of `p`
  obtain ⟨hlength, hroles⟩ := List.forall₂_iff_zip.mp (Param.roles_eq_ok_iff.mp h)
  have hi : i < roles.length := hlength ▸ (List.getElem?_eq_some_iff.mp hp).1
  have hr : roles[i]? = some roles[i] := List.getElem?_eq_getElem hi
  have hrole := hroles (List.mem_of_getElem? (List.getElem?_zip_eq_some.mpr ⟨hp, hr⟩))
  rw [hr, Param.hasStorage_of_role hrole]
  cases roles[i] with
  | plain => simp [Role.candidate?]
  | field c => simp [Role.candidate?]

namespace Module

/-- The argument fields of the class `d` are compared with the names in use: the class is attempted, and its
one constructor is `ctor`, whose parameters have modifiers that fit together. -/
structure Examines (m : Module) (hosts : List HostClass) (options : Options) (d : Declared)
    (ctor : CtorDecl) : Prop where
  attempted : m.Attempted hosts options (m.promote (ClassTable.ofHost hosts) options).module d
  single : d.decl.ctors = [ctor]
  proper : ∀ p ∈ ctor.params, p.Proper

/-- `m.Collides hosts options d p holder`: in a run over `m`, the argument field `p` of the class `d` has a
name that is held already. -/
inductive Collides (m : Module) (hosts : List HostClass) (options : Options) (d : Declared)
    (p : Param) : Holder → Prop
  /-- The nearest field of that name in sight holds it. -/
  | field {ctor : CtorDecl} {i : Nat} {ns : List String} {w : Meaning} {f : FieldSite} :
      m.Examines hosts options d ctor → ctor.ArgumentAt i p → m.Chain hosts d.superclass ns →
      NearestField ((m.promote (ClassTable.ofHost hosts) options).module.inSight hosts d ns)
        p.name.name w f →
      Collides m hosts options d p (.field w f)
  /-- There is no such field, and `q` is the first argument field of that name. -/
  | param {ctor : CtorDecl} {i j : Nat} {ns : List String} {q : Param} :
      m.Examines hosts options d ctor → ctor.ArgumentAt i p → m.Chain hosts d.superclass ns →
      (∀ w ∈ (m.promote (ClassTable.ofHost hosts) options).module.inSight hosts d ns,
        ∀ g ∈ w.sites, g.name ≠ p.name.name) →
      j < i → ctor.ArgumentAt j q → q.name.name = p.name.name →
      (∀ k < j, ∀ r, ctor.ArgumentAt k r → r.name.name ≠ p.name.name) →
      Collides m hosts options d p (.param q)

/-! ## §3 The errors of collisions -/

variable {m : Module} {hosts : List HostClass} {options : Options} {d : Declared} {ctor : CtorDecl}
  {ns : List String} {p : Param} {holder : Holder} {name cls : String} {earlier duplicate : Span}

theorem chain_promote (h : m.Chain hosts d.superclass ns) (options : Options) :
    (m.promote (ClassTable.ofHost hosts) options).module.Chain hosts d.superclass ns :=
  (m.sameHeads_final hosts options).chain h

theorem Collides.examines (h : m.Collides hosts options d p holder) :
    ∃ ctor, m.Examines hosts options d ctor := by
  cases h with
  | field hex _ _ _ => exact ⟨_, hex⟩
  | param hex _ _ _ _ _ _ _ => exact ⟨_, hex⟩

/-- The clashes of a class that is examined are its collisions. -/
theorem Examines.clashAt_iff {index : FieldIndex} {roles : List Role}
    (hex : m.Examines hosts options d ctor) (hns : m.Chain hosts d.superclass ns)
    (hshows : index.Shows
      ((m.promote (ClassTable.ofHost hosts) options).module.lineage hosts d ns))
    (hroles : Param.roles ctor.params = .ok roles) :
    (∃ i, ClashAt d.name index ctor.params roles i (.duplicateField name cls earlier duplicate)) ↔
      ∃ p holder, m.Collides hosts options d p holder ∧ p.name = ⟨name, duplicate⟩ ∧
        holder.origin d = (cls, earlier) := by
  rw [(chain_promote hns options).lineage_eq] at hshows
  have hcandidate : ∀ i p, CandidateAt ctor.params roles i p ↔ ctor.ArgumentAt i p := by
    intro i p
    exact CtorDecl.candidateAt_iff_argumentAt hroles
  have hfree : ∀ n, index.get? n = none ↔
      ∀ w ∈ (m.promote (ClassTable.ofHost hosts) options).module.inSight hosts d ns,
        ∀ g ∈ w.sites, g.name ≠ n := by
    intro n
    rw [hshows.get?_eq_none_iff, List.forall_mem_map]
  constructor
  · intro h
    obtain ⟨i, hi⟩ := h
    cases hi with
    | inSight hp hget =>
      obtain ⟨w, f, hnearest, horigin⟩ := hshows.get?_eq_some_iff.mp ⟨_, hget, rfl, rfl⟩
      refine ⟨_, .field w f, .field hex ((hcandidate _ _).mp hp) hns hnearest, rfl, ?_⟩
      exact Prod.ext horigin.1 horigin.2
    | @repeated p q j hp hget hlt hq hname hfirst =>
      refine ⟨p, .param q, ?_, rfl, rfl⟩
      apply Collides.param hex ((hcandidate _ _).mp hp) hns ((hfree _).mp hget) hlt
        ((hcandidate _ _).mp hq) hname
      intro k hk r hr
      exact hfirst k hk r ((hcandidate _ _).mpr hr)
  · intro h
    obtain ⟨p, holder, hcollides, hname, horigin⟩ := h
    obtain ⟨rfl, rfl⟩ : p.name.name = name ∧ p.name.span = duplicate := by simp [hname]
    -- a class has one constructor and one chain
    cases hcollides with
    | field hex' hp hns' hnearest =>
      obtain rfl := List.singleton_inj.mp (hex.single.symm.trans hex'.single)
      obtain rfl := hns.unique hns'
      obtain ⟨hcls, hspan⟩ := Prod.mk.inj horigin
      obtain ⟨o, hget, rfl, rfl⟩ := hshows.get?_eq_some_iff.mpr ⟨_, _, hnearest, hcls, hspan⟩
      exact ⟨_, .inSight ((hcandidate _ _).mpr hp) hget⟩
    | @param _ i j _ q hex' hp hns' hnone hlt hq hqname hfirst =>
      obtain rfl := List.singleton_inj.mp (hex.single.symm.trans hex'.single)
      obtain rfl := hns.unique hns'
      obtain ⟨rfl, rfl⟩ := Prod.mk.inj horigin
      refine ⟨i, .repeated ((hcandidate _ _).mpr hp) ((hfree _).mpr hnone) hlt
        ((hcandidate _ _).mpr hq) hqname ?_⟩
      intro k hk r hr
      exact hfirst k hk r ((hcandidate _ _).mp hr)

/-- Only classes that are tried report duplicate fields. -/
theorem duplicateField_mem_errors_iff :
    .duplicateField name cls earlier duplicate ∈ (m.promote (ClassTable.ofHost hosts) options).errors ↔
      ∃ t ∈ m.trials hosts options, .duplicateField name cls earlier duplicate ∈ t.errors := by
  rw [errors_promote, allErrors, List.mem_append, List.mem_append, List.mem_append,
    List.mem_flatMap]
  constructor
  · intro h
    rcases h with ((h | h) | h) | h
    · simpa [Error.code] using code_of_mem_misplaced h
    · simpa [Error.code] using code_of_mem_repeatErrors h
    · simpa [Error.code] using code_of_mem_loopErrors h
    · exact h
  · exact Or.inr

/-- A run reports a duplicate field for each collision and for nothing else. -/
theorem duplicateField_mem_errors_iff_collides :
    .duplicateField name cls earlier duplicate ∈ (m.promote (ClassTable.ofHost hosts) options).errors ↔
      ∃ d p holder, m.Collides hosts options d p holder ∧ p.name = ⟨name, duplicate⟩ ∧
        holder.origin d = (cls, earlier) := by
  rw [duplicateField_mem_errors_iff]
  constructor
  · intro h
    obtain ⟨⟨d, result⟩, ht, he⟩ := h
    obtain ⟨errors, hresult, he⟩ := Trial.mem_errors_iff.mp he
    obtain ⟨hattempted, ns, index, hns, hshows, hpromote⟩ := mem_trials_iff_attempted.mp ht
    rw [hresult] at hpromote
    rcases ClassDecl.mem_errors_cases hpromote he with
      hextra | ⟨ctor, hctor, ⟨q, -, hrole⟩ | ⟨roles, hroles, hclash⟩⟩
    · simpa [Error.code] using ClassDecl.code_of_mem_extraCtors hextra
    · simpa [Error.code] using Param.code_of_role hrole
    · have hex : m.Examines hosts options d ctor :=
        ⟨hattempted, hctor, Param.exists_roles_iff.mp ⟨roles, hroles⟩⟩
      exact ⟨d, (hex.clashAt_iff hns hshows hroles).mp hclash⟩
  · intro h
    obtain ⟨d, p, holder, hcollides, horigin⟩ := h
    obtain ⟨ctor, hex⟩ := hcollides.examines
    obtain ⟨ns, hns⟩ := hex.attempted.chain
    obtain ⟨roles, hroles⟩ := Param.exists_roles_iff.mpr hex.proper
    obtain ⟨index, hshows⟩ := FieldIndex.exists_shows
      ((m.promote (ClassTable.ofHost hosts) options).module.lineage hosts d ns)
    have hmem := Param.mem_clashes_iff.mpr
      ((hex.clashAt_iff hns hshows hroles).mpr ⟨p, holder, hcollides, horigin⟩)
    -- the clashes are all that is wrong with the class
    have hpromote : d.decl.promote index options =
        .error (Param.clashes d.name index [] (ctor.params.zip roles)) := by
      apply ClassDecl.promote_eq_error_iff.mpr
      refine ⟨List.ne_nil_of_mem hmem, Or.inr ⟨?_, ctor, [], hex.single, Or.inr ⟨roles, hroles, rfl⟩⟩⟩
      simp [ClassDecl.extraCtors, hex.single]
    refine ⟨⟨d, d.decl.promote index options⟩, ?_, Trial.mem_errors_iff.mpr ⟨_, hpromote, hmem⟩⟩
    exact mem_trials_iff_attempted.mpr ⟨hex.attempted, ns, index, hns, hshows, rfl⟩

/-! ## §4 Fields of the host -/

/-- The classes in sight that the module does not declare are those of the host. -/
theorem declaration?_eq_none_iff_of_mem_inSight {w : Meaning} (hd : m.declaration? d.name = some d)
    (hw : w ∈ (m.promote (ClassTable.ofHost hosts) options).module.inSight hosts d ns) :
    m.declaration? w.name = none ↔ ∃ x, w = .host x := by
  have hheads := m.sameHeads_final hosts options
  rcases List.mem_cons.mp hw with rfl | habove
  · simp [Meaning.name, hd]
  · obtain ⟨n, -, hn⟩ := List.mem_filterMap.mp habove
    rw [name_of_meaning hn, ← declaration?_eq_none_iff_host hn]
    -- the run neither adds nor removes a class
    exact ⟨hheads.declaration?_eq_none, hheads.symm.declaration?_eq_none⟩

/-- The name of the class tells whether a name is held by a field of the host. -/
theorem Collides.declaration?_eq_none_iff (h : m.Collides hosts options d p holder) :
    m.declaration? (holder.origin d).1 = none ↔ ∃ x f, holder = .field (.host x) f := by
  cases h with
  | @field _ _ _ w f hex _ _ hnearest =>
    show m.declaration? w.name = none ↔ _
    rw [declaration?_eq_none_iff_of_mem_inSight hex.attempted.declaration? hnearest.mem]
    simp
  | param hex _ _ _ _ _ _ _ => simp [Holder.origin, hex.attempted.declaration?]

/-- Each duplicate field that a run reports is a collision, and each collision is reported. If a field of
the host holds the name, which the name of the class tells, the diagnostic stays at the argument field and
names the class in a note exactly if the span of the field is empty. Otherwise it points at that span too,
although the field is not in the source. -/
theorem diagnostic_hostField (m : Module) (hosts : List HostClass) (options : Options) :
    (∀ name cls earlier duplicate, .duplicateField name cls earlier duplicate ∈
        (m.promote (ClassTable.ofHost hosts) options).errors ↔
      ∃ d p holder, m.Collides hosts options d p holder ∧ p.name = ⟨name, duplicate⟩ ∧
        holder.origin d = (cls, earlier)) ∧
    (∀ d p holder, m.Collides hosts options d p holder →
      (m.declaration? (holder.origin d).1 = none ↔ ∃ x f, holder = .field (.host x) f)) ∧
    ∀ d p x f, m.Collides hosts options d p (.field (.host x) f) →
      ∃ e ∈ (m.promote (ClassTable.ofHost hosts) options).errors,
        e = .duplicateField p.name.name x.name f.span p.name.span ∧
        (e.diagnostic.labels = [.primary p.name.span "duplicate field"] ∧
          e.diagnostic.notes = ["'" ++ p.name.name ++ "' is declared in class '" ++ x.name ++ "'"] ↔
            f.span.isEmpty = true) ∧
        (e.diagnostic.labels = [.primary p.name.span "duplicate field",
            .secondary f.span ("'" ++ p.name.name ++ "' first declared here")] ∧
          e.diagnostic.notes = [] ↔ f.span.isEmpty = false) := by
  refine ⟨?_, ?_, ?_⟩
  · intro name cls earlier duplicate
    exact duplicateField_mem_errors_iff_collides
  · intro d p holder h
    exact h.declaration?_eq_none_iff
  · intro d p x f h
    refine ⟨_, duplicateField_mem_errors_iff_collides.mpr ⟨d, p, _, h, rfl, rfl⟩, rfl, ?_⟩
    -- the labels and notes differ by whether the field has a position, and by nothing else
    cases hspan : f.span.isEmpty with
    | true => simp [Error.diagnostic, Error.labels, Error.notes, Meaning.name, hspan]
    | false => simp [Error.diagnostic, Error.labels, Error.notes, hspan]

/-- The host class `Entity`, with a field whose span is not empty. -/
def entity : HostClass :=
  { name := "Entity", fields := [{ name := "id", span := ⟨40, 42, 3, 9⟩ }] }

/-- The parameter `var id`. -/
def idParam : Param :=
  ((Param.named "id").withModifier (.storage .var)).atSpan ⟨30, 32, 2, 13⟩

/-- The class `User extends Entity`, with the argument field `id`. -/
def user : Declared :=
  { position := 0
    decl := { ClassDecl.named "User" with
      superclass := some { name := "Entity" }
      members := [.ctor (.make [idParam] [])] } }

def users : Module :=
  { statements := [.classDecl user.decl] }

theorem collides_user :
    users.Collides [entity] {} user idParam (.field (.host entity) ⟨"id", ⟨40, 42, 3, 9⟩⟩) := by
  have hnone : users.declaration? "Entity" = none := rfl
  have hmeaning : users.meaning [entity] "Entity" = some (.host entity) := rfl
  have hchain : users.Chain [entity] user.superclass ["Entity"] := .link hmeaning (.root rfl)
  have hattempted : users.Attempted [entity] {}
      (users.promote (ClassTable.ofHost [entity]) {}).module user := by
    apply Attempted.intro rfl hchain
    · decide
    · simp [hnone]
    · simp [hnone]
  have hproper : ∀ p ∈ [idParam], p.Proper := Param.exists_roles_iff.mp ⟨_, rfl⟩
  have hargument : (CtorDecl.make [idParam] []).ArgumentAt 0 idParam := ⟨rfl, rfl⟩
  -- promotion of `User` leaves the name `Entity` to the host
  have hnone' : (users.promote (ClassTable.ofHost [entity]) {}).module.declaration? "Entity" = none :=
    (users.sameHeads_final [entity] {}).declaration?_eq_none hnone
  have hmeaning' : (users.promote (ClassTable.ofHost [entity]) {}).module.meaning [entity] "Entity" =
      some (.host entity) := by
    rw [meaning, hnone']
    rfl
  have hsites : user.decl.sites = [] := rfl
  apply Collides.field ⟨hattempted, rfl, hproper⟩ hargument hchain
  refine ⟨[.own user], [], ?_, ?_, rfl⟩
  · rw [inSight, List.filterMap_cons_some hmeaning']
    rfl
  · simp [Meaning.sites, hsites]

/-- The host has put its field at an offset of its own, and the diagnostic points there. -/
theorem labels_collides_user :
    users.Collides [entity] {} user idParam (.field (.host entity) ⟨"id", ⟨40, 42, 3, 9⟩⟩) ∧
      ∃ e ∈ (users.promote (ClassTable.ofHost [entity]) {}).errors,
        e.diagnostic.labels = [.primary idParam.name.span "duplicate field",
          .secondary ⟨40, 42, 3, 9⟩ "'id' first declared here"] ∧ e.diagnostic.notes = [] := by
  obtain ⟨e, he, -, -, hpoints⟩ := (diagnostic_hostField users [entity] {}).2.2 _ _ _ _ collides_user
  exact ⟨collides_user, e, he, hpoints.mpr rfl⟩

end Module

end FieldPromotion
