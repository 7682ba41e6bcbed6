import FieldPromotion.Proofs.Reports

/-!
# What the options decide

The options decide where new fields stand in a class, and who may use those for which nothing is
written. Neither is seen again by a class further below, since a name is looked up in a class wherever
it stands there. So two runs of a module with different options try the same classes, with the same
errors and the same new fields.
-/

namespace FieldPromotion

/-! ## §1 A class under two options -/

/-- A new field under two options. Only its visibility may differ, and only if the parameter says
nothing about it. -/
structure FieldPair where
  param : Param
  left : FieldDecl
  right : FieldDecl
  named : left.name = param.name
  same : right = { left with visibility := right.visibility }
  written : ∀ v, .visibility v ∈ param.keywords → right.visibility = left.visibility

/-- A member of a class before and after promotion: constructors may be written anew, and all other
members stay as they are. -/
inductive Member.Remade : Member → Member → Prop
  | kept (x : Member) : Remade x x
  | ctor (k k' : CtorDecl) : Remade (.ctor k) (.ctor k')

/-- The members of a class are the given ones, with new fields in between. -/
def ClassDecl.Adds (c : ClassDecl) (old : List Member) (fields : List FieldDecl) : Prop :=
  ∃ pre post, old = pre ++ post ∧ c.members = pre ++ fields.map .field ++ post

/-- A class `c` as it is after two runs. Apart from the new fields, `left` and `right` have the same
members in the same order. The new fields are those of the argument fields of `c`, or there are none
and the class is as it was written. -/
structure ClassDecl.SameUnder (c left right : ClassDecl) : Prop where
  head : right = { left with members := right.members }
  members : ∃ (old : List Member) (pairs : List FieldPair),
    List.Forall₂ Member.Remade c.members old ∧
    left.Adds old (pairs.map FieldPair.left) ∧ right.Adds old (pairs.map FieldPair.right) ∧
    (pairs.map FieldPair.param = c.argumentFields ∨ left = c ∧ right = c)

theorem ClassDecl.adds_of_insertAt {c : ClassDecl} {old : List Member} {i : Nat}
    {fields : List FieldDecl} (h : c.members = insertAt old i (fields.map .field)) :
    c.Adds old fields :=
  ⟨old.take i, old.drop i, (List.take_append_drop i old).symm, h⟩

theorem ClassDecl.sameUnder_self (c : ClassDecl) : c.SameUnder c c := by
  have hnone : c.Adds c.members [] := ClassDecl.adds_of_insertAt (insertAt_nil c.members 0).symm
  refine ⟨by cases c; rfl, c.members, [], ?_, hnone, hnone, Or.inr ⟨rfl, rfl⟩⟩
  rw [List.forall₂_same]
  exact fun x _ => .kept x

/-- The visibility that is written on a parameter is the one of its role. -/
theorem Param.visibilityOr_of_written {p : Param} {c : Candidate} {v : Visibility}
    (h : p.role = .ok (.field c)) (hv : .visibility v ∈ p.keywords) (default default' : Visibility) :
    c.visibilityOr default' = c.visibilityOr default := by
  obtain ⟨-, ⟨-, hr⟩ | ⟨storage, -, hr⟩⟩ := Param.role_eq_ok_iff.mp h
  · cases hr
  · cases hr
    obtain ⟨m, hm, hkey⟩ := List.mem_map.mp hv
    have hsome : (p.modifiers.findSome? (·.keyword.visibility?)).isSome := by
      rw [List.findSome?_isSome_iff]
      exact ⟨m, hm, by simp [Keyword.visibility?_eq_some_iff.mpr hkey]⟩
    obtain ⟨u, hu⟩ := Option.isSome_iff_exists.mp hsome
    simp [Candidate.visibilityOr, hu]

/-- The new fields of a constructor under two options. -/
theorem exists_fieldPairs {ps : List Param} {rs : List Role}
    (h : List.Forall₂ (fun p r => p.role = .ok r) ps rs) (options options' : Options) :
    ∃ pairs : List FieldPair, pairs.map FieldPair.param = ps.filter Param.hasStorage ∧
      pairs.map FieldPair.left = promotedFields options (ps.zip rs) ∧
      pairs.map FieldPair.right = promotedFields options' (ps.zip rs) := by
  induction h with
  | nil => exact ⟨[], rfl, rfl, rfl⟩
  | @cons p r ps rs hr _ ih =>
    obtain ⟨pairs, hparam, hleft, hright⟩ := ih
    have hstorage := Param.hasStorage_of_role hr
    cases r with
    | plain =>
      have hno : p.hasStorage = false := hstorage
      exact ⟨pairs, by rw [List.filter_cons, hno]; exact hparam, hleft, hright⟩
    | field c =>
      have hyes : p.hasStorage = true := hstorage
      -- both fields come from one parameter, and differ only if it has no visibility written on
      -- it
      let pair : FieldPair := {
        param := p
        left := p.toField c options.defaultVisibility
        right := p.toField c options'.defaultVisibility
        named := rfl
        same := rfl
        written := fun v hv => Param.visibilityOr_of_written hr hv _ _ }
      refine ⟨pair :: pairs, ?_, ?_, ?_⟩
      · rw [List.filter_cons, hyes, List.map_cons, hparam]
        rfl
      · rw [List.map_cons, hleft]
        rfl
      · rw [List.map_cons, hright]
        rfl

/-- The constructor is written anew in the same way under all options, since it depends on the names
of the new fields only. -/
theorem CtorDecl.promote_options (k : CtorDecl) (ps : List (Param × Role))
    (options options' : Options) :
    k.promote ps (promotedFields options' ps) = k.promote ps (promotedFields options ps) := by
  have hnames : (promotedFields options' ps).map FieldDecl.name =
      (promotedFields options ps).map FieldDecl.name := by
    simp only [promotedFields, List.map_filterMap]
    refine List.filterMap_congr fun pr _ => ?_
    cases pr.2 <;> rfl
  rw [CtorDecl.promote, CtorDecl.promote, hnames]

theorem Member.remade_withCtor (new : CtorDecl) (x : Member) : x.Remade (x.withCtor new) := by
  cases x with
  | field f => exact .kept _
  | method f => exact .kept _
  | ctor k => exact .ctor k new

section Class

variable {c : ClassDecl} {index : FieldIndex} {options options' : Options} {new new' : Promoted}

/-- A class that is accepted under some options is accepted under all. -/
theorem ClassDecl.exists_promote_options (h : c.promote index options = .ok new)
    (options' : Options) : ∃ new', c.promote index options' = .ok new' := by
  rw [ClassDecl.exists_promote_iff]
  exact (ClassDecl.exists_promote_iff options).mp ⟨new, h⟩

theorem ClassDecl.sameUnder_promote (h : c.promote index options = .ok new)
    (h' : c.promote index options' = .ok new') : c.SameUnder new.decl new'.decl := by
  rcases ClassDecl.promote_eq_ok_iff.mp h with
    ⟨hctors, rfl⟩ | ⟨ctor, roles, hctors, hroles, -, rfl⟩
  · -- there is no constructor
    rcases ClassDecl.promote_eq_ok_iff.mp h' with ⟨-, rfl⟩ | ⟨ctor, roles, hctors', -⟩
    · exact c.sameUnder_self
    · simp [hctors] at hctors'
  · rcases ClassDecl.promote_eq_ok_iff.mp h' with
      ⟨hctors', -⟩ | ⟨ctor', roles', hctors', hroles', -, rfl⟩
    · simp [hctors] at hctors'
    · -- both runs see the same constructor with the same roles
      obtain rfl : ctor = ctor' := by simpa [hctors] using hctors'
      obtain rfl : roles = roles' := Except.ok.inj (hroles.symm.trans hroles')
      obtain ⟨pairs, hparam, hleft, hright⟩ :=
        exists_fieldPairs (Param.roles_eq_ok_iff.mp hroles) options options'
      obtain ⟨i, hi⟩ := c.members_promoteWith options ctor (ctor.params.zip roles)
      obtain ⟨j, hj⟩ := c.members_promoteWith options' ctor (ctor.params.zip roles)
      rw [CtorDecl.promote_options ctor _ options options'] at hj
      let old := c.members.map (Member.withCtor
        (ctor.promote (ctor.params.zip roles) (promotedFields options (ctor.params.zip roles))))
      refine ⟨rfl, old, pairs, ?_, ?_, ?_, Or.inl ?_⟩
      · rw [List.forall₂_map_right_iff, List.forall₂_same]
        exact fun x _ => x.remade_withCtor _
      · rw [hleft]
        exact ClassDecl.adds_of_insertAt hi
      · rw [hright]
        exact ClassDecl.adds_of_insertAt hj
      · rw [hparam, ClassDecl.argumentFields_of_ctors hctors]

/-- What other classes see of the new fields does not depend on the options. -/
theorem ClassDecl.map_site_promote (h : c.promote index options = .ok new)
    (h' : c.promote index options' = .ok new') :
    new'.fields.map FieldSummary.site = new.fields.map FieldSummary.site := by
  rw [ClassDecl.fields_eq_of_ok h, ClassDecl.fields_eq_of_ok h', List.map_map, List.map_map]
  rfl

end Class

/-! ## §2 The same classes are tried -/

namespace Module

variable {m out out' : Module} {hosts : List HostClass} {options options' : Options}
  {d a : Declared} {n : String} {ns : List String} {new new' : Promoted} {index : FieldIndex}
  {result result' : Except (List Error) Report}

/-- The fields of an accepted class are those that promotion gave it. -/
theorem Promotes.sitesOf_accepted (h : m.Promotes hosts options out result)
    (ha : m.declaration? n = some a) (hs : m.Succeeds hosts options out a new) :
    out.sitesOf hosts n = new.decl.sites := by
  obtain ⟨c, hc, -, -, hout⟩ := h.sameHeads.declaration? ha
  rw [classAt?, h.accepted a new hs] at hc
  obtain rfl : new.decl = c := Option.some.inj hc
  rw [sitesOf, meaning_own hosts hout]
  rfl

section Tried

variable (h : m.Promotes hosts options out result) (h' : m.Promotes hosts options' out' result')
include h h'

/-- A name is found at the same place of a class above in both outcomes, if the class is accepted in
both with the same fields in sight. -/
theorem Promotes.find?_sitesOf
    (hacc : ∀ a, m.declaration? n = some a → ∃ ks index new new',
      m.Succeeds hosts options out a new ∧ m.Succeeds hosts options' out' a new' ∧
      index.Shows (out.lineage hosts a ks) ∧ a.decl.promote index options = .ok new ∧
      a.decl.promote index options' = .ok new') (name : String) :
    (out.sitesOf hosts n).find? (·.name == name) = (out'.sitesOf hosts n).find? (·.name == name) := by
  cases ha : m.declaration? n with
  | none =>
    -- a class of the host, or none at all
    rw [sitesOf, sitesOf, Module.meaning, Module.meaning, h.sameHeads.declaration?_eq_none ha,
      h'.sameHeads.declaration?_eq_none ha]
  | some a =>
    obtain ⟨ks, index, new, new', hs, hs', hshows, hnew, hnew'⟩ := hacc a ha
    have hown : ∀ f ∈ a.decl.fields, index.get? f.name.name ≠ none := by
      intro f hf hnone
      rw [hshows.get?_eq_none_iff] at hnone
      exact hnone _ List.mem_cons_self f.site (List.mem_map_of_mem hf) rfl
    rw [h.sitesOf_accepted ha hs, h'.sitesOf_accepted ha hs',
      ClassDecl.find?_sites_promote hnew hown, ClassDecl.find?_sites_promote hnew' hown,
      ClassDecl.map_site_promote hnew hnew']

/-- A class that is tried in one run is tried in the other, and finds each name at the same place. -/
theorem Promotes.tried_options (hatt : m.Attempted hosts options out d) :
    m.Attempted hosts options' out' d ∧ ∀ ns (index : FieldIndex), m.Chain hosts d.superclass ns →
      index.Shows (out.lineage hosts d ns) → index.Shows (out'.lineage hosts d ns) := by
  obtain ⟨ns, hns⟩ := hatt.chain
  revert hatt
  -- from the classes above to the class itself
  apply hns.induction
  intro d ns hns ih hatt
  obtain ⟨hfirst, hplaced, hacc⟩ := hns.attempted_iff.mp hatt
  have habove : ∀ n ∈ ns, ∀ a, m.declaration? n = some a → ∃ ks index new new',
      m.Succeeds hosts options out a new ∧ m.Succeeds hosts options' out' a new' ∧
      index.Shows (out.lineage hosts a ks) ∧ a.decl.promote index options = .ok new ∧
      a.decl.promote index options' = .ok new' := by
    intro n hn a ha
    obtain ⟨new, hs⟩ := hacc n hn a ha
    obtain ⟨ks, index, hks, hshows, hnew⟩ := hs.2
    obtain ⟨hatt', hshows'⟩ := ih n hn a ha hs.1
    obtain ⟨new', hnew'⟩ := ClassDecl.exists_promote_options hnew options'
    have hs' : m.Succeeds hosts options' out' a new' :=
      ⟨hatt', ks, index, hks, hshows' ks index hks hshows, hnew'⟩
    exact ⟨ks, index, new, new', hs, hs', hshows, hnew, hnew'⟩
  constructor
  · refine hns.attempted_iff.mpr ⟨hfirst, hplaced, fun n hn a ha => ?_⟩
    obtain ⟨-, -, -, new', -, hs', -⟩ := habove n hn a ha
    exact ⟨new', hs'⟩
  · intro ks index hks hshows name
    obtain rfl := hns.unique hks
    rw [hshows name]
    apply nearest?_congr
    rw [lineage, lineage, List.map_cons, List.map_cons, List.map_map, List.map_map]
    refine congrArg _ (List.map_congr_left fun n hn => ?_)
    exact Prod.ext rfl (h.find?_sitesOf h' (habove n hn) name)

/-- What an attempt gives under one choice of options, it gives under another one but for the
options. -/
theorem Promotes.gives_options {r : Except (List Error) Promoted}
    (hatt : m.Attempted hosts options out d) (hr : m.Gives hosts options out d r) :
    ∃ index, d.decl.promote index options = r ∧ m.Attempted hosts options' out' d ∧
      m.Gives hosts options' out' d (d.decl.promote index options') := by
  obtain ⟨ns, index, hns, hshows, hr⟩ := hr
  obtain ⟨hatt', hshows'⟩ := h.tried_options h' hatt
  exact ⟨index, hr, hatt', ns, index, hns, hshows' ns index hns hshows, rfl⟩

end Tried

/-- A class is accepted in both runs or in neither. -/
theorem Promotes.exists_succeeds_options (h : m.Promotes hosts options out result)
    (h' : m.Promotes hosts options' out' result') (hs : m.Succeeds hosts options out d new) :
    ∃ new', m.Succeeds hosts options' out' d new' ∧ d.decl.SameUnder new.decl new'.decl := by
  obtain ⟨index, hnew, hatt', hgives'⟩ := h.gives_options h' hs.1 hs.2
  obtain ⟨new', hnew'⟩ := ClassDecl.exists_promote_options hnew options'
  rw [hnew'] at hgives'
  exact ⟨new', ⟨hatt', hgives'⟩, ClassDecl.sameUnder_promote hnew hnew'⟩

end Module

/-! ## §3 Reports under two options -/

/-- Only the visibility of a field is reported differently. -/
def FieldSummary.SameBut (f f' : FieldSummary) : Prop :=
  f' = { f with visibility := f'.visibility }

/-- Two entries of one class, with the same fields but for their visibility. -/
structure ClassReport.SameBut (e e' : ClassReport) : Prop where
  cls : e'.cls = e.cls
  fields : List.Forall₂ FieldSummary.SameBut e.fields e'.fields

/-- Two runs end alike: with the same errors, or with reports of the same classes in the same order,
which differ in the visibility of fields only. -/
inductive SameVerdict : Except (List Error) Report → Except (List Error) Report → Prop
  | ok {r r' : Report} (h : List.Forall₂ ClassReport.SameBut r.classes r'.classes) :
      SameVerdict (.ok r) (.ok r')
  | error (errors : List Error) : SameVerdict (.error errors) (.error errors)

/-- Two attempts at a class with the same fields in sight. -/
structure Trial.SameUnder (options options' : Options) (t t' : Trial) : Prop where
  cls : t'.cls = t.cls
  result : ∃ index, t.result = t.cls.decl.promote index options ∧
    t'.result = t.cls.decl.promote index options'

section Trials

variable {options options' : Options} {t t' : Trial} {ts ts' : List Trial}

/-- Two attempts have the same errors, or both have an entry. -/
theorem Trial.SameUnder.errors_or (h : t.SameUnder options options' t') :
    t'.errors = t.errors ∧ (t.report? = none ∧ t'.report? = none ∨
      ∃ e e', t.report? = some e ∧ t'.report? = some e' ∧ e.SameBut e') := by
  obtain ⟨index, hr, hr'⟩ := h.result
  cases hnew : t.cls.decl.promote index options with
  | error errors =>
    have hnew' := ClassDecl.promote_error_options hnew options'
    rw [hnew] at hr
    rw [hnew'] at hr'
    simp [Trial.errors, Trial.report?, hr, hr']
  | ok new =>
    obtain ⟨new', hnew'⟩ := ClassDecl.exists_promote_options hnew options'
    rw [hnew] at hr
    rw [hnew'] at hr'
    refine ⟨by simp [Trial.errors, hr, hr'], Or.inr ⟨⟨t.cls.name, new.fields⟩,
      ⟨t'.cls.name, new'.fields⟩, by simp [Trial.report?, hr], by simp [Trial.report?, hr'], ?_⟩⟩
    refine ⟨congrArg Declared.name h.cls, ?_⟩
    -- both lists come from the argument fields
    rw [ClassDecl.fields_eq_of_ok hnew, ClassDecl.fields_eq_of_ok hnew',
      List.forall₂_map_left_iff, List.forall₂_map_right_iff, List.forall₂_same]
    exact fun p _ => rfl

theorem flatMap_errors_of_sameUnder (h : List.Forall₂ (Trial.SameUnder options options') ts ts') :
    ts'.flatMap Trial.errors = ts.flatMap Trial.errors := by
  induction h with
  | nil => rfl
  | cons ht _ ih => rw [List.flatMap_cons, List.flatMap_cons, ht.errors_or.1, ih]

theorem forall₂_report?_of_sameUnder
    (h : List.Forall₂ (Trial.SameUnder options options') ts ts') :
    List.Forall₂ ClassReport.SameBut (ts.filterMap Trial.report?)
      (ts'.filterMap Trial.report?) := by
  induction h with
  | nil => exact List.Forall₂.nil
  | cons ht _ ih =>
    obtain ⟨-, ⟨hnone, hnone'⟩ | ⟨e, e', hsome, hsome', hsame⟩⟩ := ht.errors_or
    · rw [List.filterMap_cons, List.filterMap_cons, hnone, hnone']
      exact ih
    · rw [List.filterMap_cons, List.filterMap_cons, hsome, hsome']
      exact List.Forall₂.cons hsame ih

end Trials

/-! ## §4 Two runs -/

namespace Module

variable {m out out' : Module} {hosts : List HostClass} {options options' : Options}
  {result result' : Except (List Error) Report} {trials trials' : List Trial}

theorem IsSchedule.mem_cls_options {d : Declared} (h : m.Promotes hosts options out result)
    (h' : m.Promotes hosts options' out' result') (hs : m.IsSchedule hosts options out trials)
    (hs' : m.IsSchedule hosts options' out' trials') (hd : d ∈ trials.map Trial.cls) :
    d ∈ trials'.map Trial.cls := by
  obtain ⟨t, ht, rfl⟩ := List.mem_map.mp hd
  obtain ⟨hatt, hgives⟩ := (hs.mem_iff t).mp ht
  obtain ⟨index, -, hatt', hgives'⟩ := h.gives_options h' hatt hgives
  apply List.mem_map.mpr
  exact ⟨⟨t.cls, t.cls.decl.promote index options'⟩, (hs'.mem_iff _).mpr ⟨hatt', hgives'⟩, rfl⟩

/-- The two runs try the same classes in the same order. -/
theorem IsSchedule.forall₂_sameUnder (h : m.Promotes hosts options out result)
    (h' : m.Promotes hosts options' out' result') (hs : m.IsSchedule hosts options out trials)
    (hs' : m.IsSchedule hosts options' out' trials') :
    List.Forall₂ (Trial.SameUnder options options') trials trials' := by
  -- the same classes are tried in the same order, since neither depends on the options
  have hcls : trials.map Trial.cls = trials'.map Trial.cls := by
    have : Std.Asymm (m.Before hosts) := ⟨fun _ _ => Before.asymm⟩
    refine (List.pairwise_map.mpr hs.sorted).eq_of_mem_iff (List.pairwise_map.mpr hs'.sorted) ?_
    exact fun d => ⟨hs.mem_cls_options h h' hs', hs'.mem_cls_options h' h hs⟩
  have haligned : List.Forall₂ (fun t t' => t.cls = t'.cls) trials trials' := by
    rw [← List.forall₂_eq_eq_eq, List.forall₂_map_left_iff, List.forall₂_map_right_iff] at hcls
    exact hcls
  obtain ⟨hlength, hzip⟩ := List.forall₂_iff_zip.mp haligned
  refine List.forall₂_iff_zip.mpr ⟨hlength, fun {t t'} hmem => ?_⟩
  obtain ⟨ht, ht'⟩ := List.of_mem_zip hmem
  have heq : t.cls = t'.cls := hzip hmem
  obtain ⟨hatt, hgives⟩ := (hs.mem_iff t).mp ht
  obtain ⟨-, hgives'⟩ := (hs'.mem_iff t').mp ht'
  obtain ⟨index, hr, -, hother⟩ := h.gives_options h' hatt hgives
  rw [← heq] at hgives'
  exact ⟨heq.symm, index, hr.symm, hgives'.unique hother⟩

/-- A module as it is after two runs: the classes are the same but for the options, and all other
statements are as they were. -/
structure SameUnder (m left right : Module) : Prop where
  span : left.span = m.span ∧ right.span = m.span
  classes : ∀ i c, m.classAt? i = some c → ∃ l r, left.classAt? i = some l ∧
    right.classAt? i = some r ∧ c.SameUnder l r
  others : ∀ i, m.classAt? i = none →
    left.statements[i]? = m.statements[i]? ∧ right.statements[i]? = m.statements[i]?

theorem Promotes.sameUnder (h : m.Promotes hosts options out result)
    (h' : m.Promotes hosts options' out' result') : m.SameUnder out out' := by
  refine ⟨⟨h.span, h'.span⟩, ?_, fun i hi => ⟨h.kept_of_not_class hi, h'.kept_of_not_class hi⟩⟩
  intro i c hc
  have hd : (⟨i, c⟩ : Declared) ∈ m.declared := mem_declared_iff.mpr hc
  by_cases hex : ∃ new, m.Succeeds hosts options out ⟨i, c⟩ new
  · obtain ⟨new, hnew⟩ := hex
    obtain ⟨new', hnew', hsame⟩ := h.exists_succeeds_options h' hnew
    refine ⟨new.decl, new'.decl, ?_, ?_, hsame⟩
    · rw [classAt?, h.accepted _ new hnew]
      rfl
    · rw [classAt?, h'.accepted _ new' hnew']
      rfl
  · -- left as it is by both runs
    have hex' : ¬ ∃ new, m.Succeeds hosts options' out' ⟨i, c⟩ new := by
      rintro ⟨new', hnew'⟩
      obtain ⟨new, hnew, -⟩ := h'.exists_succeeds_options h hnew'
      exact hex ⟨new, hnew⟩
    refine ⟨c, c, ?_, ?_, c.sameUnder_self⟩
    · rw [classAt?, h.kept_class hd hex]
      rfl
    · rw [classAt?, h'.kept_class hd hex']
      rfl

/-- Two runs of a module with different options end with the same errors or with reports that differ
in visibility only, and the classes they lead to are the same but for the place and the visibility of
new fields. -/
theorem sameVerdict_sameUnder (m : Module) (hosts : List HostClass) (options options' : Options) :
    SameVerdict (m.promote (ClassTable.ofHost hosts) options).result
        (m.promote (ClassTable.ofHost hosts) options').result ∧
      m.SameUnder (m.promote (ClassTable.ofHost hosts) options).module
        (m.promote (ClassTable.ofHost hosts) options').module := by
  have h := promotes_promote m hosts options
  have h' := promotes_promote m hosts options'
  refine ⟨?_, h.sameUnder h'⟩
  obtain ⟨trials, hsched, hresult⟩ := h.result
  obtain ⟨trials', hsched', hresult'⟩ := h'.result
  have htrials := hsched.forall₂_sameUnder h h' hsched'
  -- the other errors are known before the first class is tried
  have herrors : m.allErrors hosts trials' = m.allErrors hosts trials := by
    rw [allErrors, allErrors, flatMap_errors_of_sameUnder htrials]
  rw [hresult, hresult', herrors]
  cases m.allErrors hosts trials with
  | nil => exact .ok (forall₂_report?_of_sameUnder htrials)
  | cons e es => exact .error (e :: es)

end Module

end FieldPromotion
