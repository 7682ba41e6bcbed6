import FieldPromotion.Proofs.HandWritten
import FieldPromotion.Proofs.Success

/-!
# Reports

The report of a module without errors can be read off the module as it was written. It lists every
class once, superclasses before the classes below them, and with each class the argument fields of its
constructor. These are the fields that the class has gained, and no other parameter of the module is
written with `var` or `final`.
-/

namespace FieldPromotion

/-! ## §1 Argument fields and their summaries -/

theorem Param.hasModifier_iff {p : Param} {k : Keyword} :
    p.hasModifier k = true ↔ k ∈ p.keywords := by
  simp [Param.hasModifier, Param.keywords]

/-- Modifiers that fit together have one keyword of each group at most. -/
theorem Param.Proper.eq_of_sameGroup {p : Param} {k l : Keyword} (h : p.Proper)
    (hk : k ∈ p.keywords) (hl : l ∈ p.keywords) (hkl : k.sameGroup l = true) : k = l := by
  obtain ⟨a, ha, rfl⟩ := List.mem_map.mp hk
  obtain ⟨b, hb, rfl⟩ := List.mem_map.mp hl
  exact congrArg Modifier.keyword (Modifier.Apart.eq_of_sameGroup h.distinct ha hb hkl)

/-- Of the keywords of a group, only the one that is written is found. -/
theorem Param.Proper.hasModifier_iff_eq {p : Param} {k l : Keyword} (h : p.Proper)
    (hk : k ∈ p.keywords) (hlk : l.sameGroup k = true) : p.hasModifier l = true ↔ l = k := by
  rw [Param.hasModifier_iff]
  constructor
  · intro hl
    exact h.eq_of_sameGroup hl hk hlk
  · rintro rfl
    exact hk

/-- What a report says of an argument field: its name with the span of the name, the storage that is
written, and the visibility that is written or else the given one. -/
def Param.summary (default : Visibility) (p : Param) : FieldSummary where
  name := p.name.name
  storage := if p.hasModifier (.storage .final) then .final else .var
  visibility :=
    if p.hasModifier (.visibility .pub) then .pub
    else if p.hasModifier (.visibility .priv) then .priv
    else default
  span := p.name.span

theorem Param.Proper.summary_storage {p : Param} {s : Storage} (h : p.Proper)
    (hs : .storage s ∈ p.keywords) (default : Visibility) : (p.summary default).storage = s := by
  have hfinal := h.hasModifier_iff_eq hs (l := .storage .final) rfl
  cases s <;> simp [Param.summary, hfinal]

theorem Param.Proper.summary_visibility {p : Param} {v : Visibility} (h : p.Proper)
    (hv : .visibility v ∈ p.keywords) (default : Visibility) :
    (p.summary default).visibility = v := by
  have hpub := h.hasModifier_iff_eq hv (l := .visibility .pub) rfl
  have hpriv := h.hasModifier_iff_eq hv (l := .visibility .priv) rfl
  cases v <;> simp [Param.summary, hpub, hpriv]

/-- The field of an argument field is summed up as the argument field is. -/
theorem Param.Declares.summary_eq {p : Param} {default : Visibility} {f : FieldDecl}
    (h : p.Declares default f) (hp : p.Proper) : f.summary = p.summary default := by
  have hstorage : (p.summary default).storage = f.storage := hp.summary_storage h.storage default
  have hvisibility : (p.summary default).visibility = f.visibility := by
    obtain hwritten | ⟨hnone, hdefault⟩ := h.visibility
    · exact hp.summary_visibility hwritten default
    · -- neither keyword is written
      have habsent : ∀ v, p.hasModifier (.visibility v) = false := by
        intro v
        by_contra hyes
        exact hnone v (Param.hasModifier_iff.mp (by simpa using hyes))
      simp [Param.summary, habsent, hdefault]
  rw [FieldDecl.summary, h.name, ← hstorage, ← hvisibility]
  rfl

theorem map_summary_of_declares {default : Visibility} {ps : List Param} {fields : List FieldDecl}
    (h : List.Forall₂ (Param.Declares default) ps fields) (hp : ∀ p ∈ ps, p.Proper) :
    fields.map FieldDecl.summary = ps.map (Param.summary default) := by
  induction h with
  | nil => rfl
  | cons hdecl _ ih =>
    rw [List.forall_mem_cons] at hp
    rw [List.map_cons, List.map_cons, hdecl.summary_eq hp.1, ih hp.2]

/-- An accepted class has gained the fields that its argument fields stand for. -/
theorem ClassDecl.fields_eq_of_ok {c : ClassDecl} {index : FieldIndex} {options : Options}
    {new : Promoted} (h : c.promote index options = .ok new) :
    new.fields = c.argumentFields.map (Param.summary options.defaultVisibility) := by
  have hable : c.Promotable index := (ClassDecl.exists_promote_iff options).mp ⟨new, h⟩
  rcases ClassDecl.promote_eq_ok_iff.mp h with
    ⟨hctors, rfl⟩ | ⟨ctor, roles, hctors, hroles, -, rfl⟩
  · simp [ClassDecl.argumentFields, hctors]
  · have hfields := ClassDecl.argumentFields_of_ctors hctors
    have hdeclares := forall₂_declares_promotedFields (Param.roles_eq_ok_iff.mp hroles) options
    rw [hfields]
    apply map_summary_of_declares hdeclares
    intro p hp
    exact hable.proper ctor (by simp [hctors]) p (List.mem_filter.mp hp).1

/-! ## §2 Counting modifiers -/

/-- Without modifiers there are no argument fields. -/
theorem filter_hasStorage_eq_nil {ps : List Param} (h : ∀ p ∈ ps, p.modifiers = []) :
    ps.filter Param.hasStorage = [] := by
  rw [List.filter_eq_nil_iff]
  intro p hp
  simp [Param.hasStorage, h p hp]

/-- In a class where nothing is misplaced, only constructors have argument fields. -/
theorem ClassDecl.filter_params {c : ClassDecl} (h : (Stmt.classDecl c).misplacedTop = []) :
    (Stmt.classDecl c).params.filter Param.hasStorage = c.argumentFields := by
  have hparams : (Stmt.classDecl c).params = c.members.flatMap Member.params := by
    obtain ⟨_, _, _, _, members, _⟩ := c
    rw [Stmt.params, Member.paramsAll_eq_flatMap]
  rw [Stmt.misplacedTop, Member.misplacedAll_eq_flatMap, List.flatMap_eq_nil_iff] at h
  -- member by member: what a member has is what its constructor has, if it is one
  have hmember : ∀ x ∈ c.members, x.params.filter Param.hasStorage =
      x.ctor?.toList.flatMap CtorDecl.argumentFields := by
    intro x hx
    have hnil := h x hx
    cases hctor : x.ctor? with
    | none =>
      rw [Member.misplaced_eq_of_not_ctor hctor, Member.misplaced_eq_nil_iff] at hnil
      exact filter_hasStorage_eq_nil hnil
    | some k =>
      obtain rfl : x = .ctor k := by cases x <;> simp_all [Member.ctor?]
      rw [Member.misplaced_ctor, List.append_eq_nil_iff, Stmt.misplacedAll_eq_nil_iff] at hnil
      simp [Member.params_ctor, filter_hasStorage_eq_nil hnil.2, CtorDecl.argumentFields]
  rw [hparams, List.filter_flatMap, List.flatMap_congr hmember, ClassDecl.argumentFields,
    ClassDecl.ctors, List.filterMap_eq_flatMap_toList, List.flatMap_assoc]

namespace Module

variable {m out : Module} {hosts : List HostClass} {options : Options} {report : Report}
  {d : Declared}

/-- In a module where nothing is misplaced, the parameters with `var` or `final` are the argument
fields of its classes. -/
theorem filter_params (h : m.misplaced = []) :
    m.params.filter Param.hasStorage = m.classes.flatMap ClassDecl.argumentFields := by
  rw [Module.misplaced, List.flatMap_eq_nil_iff] at h
  have hstmt : ∀ s ∈ m.statements, s.params.filter Param.hasStorage =
      s.class?.toList.flatMap ClassDecl.argumentFields := by
    intro s hs
    cases hclass : s.class? with
    | none => exact filter_hasStorage_eq_nil (params_of_not_class hclass (h s hs))
    | some c =>
      obtain rfl : s = .classDecl c := by cases s <;> simp_all [Stmt.class?]
      rw [ClassDecl.filter_params (h _ hs)]
      simp
  rw [params, Stmt.paramsAll_eq_flatMap, List.filter_flatMap, List.flatMap_congr hstmt,
    Module.classes, List.filterMap_eq_flatMap_toList, List.flatMap_assoc]

/-! ## §3 Entries -/

/-- The entry of a class in a report: it has the argument fields of the constructor, in their order,
and in `out` the class has gained just these fields. -/
structure ReportedAs (out : Module) (default : Visibility) (d : Declared) (entry : ClassReport) :
    Prop where
  cls : entry.cls = d.name
  single : d.decl.ctors.length ≤ 1
  fields : entry.fields = d.decl.argumentFields.map (Param.summary default)
  gained : ∃ c pre new post, out.classAt? d.position = some c ∧ d.decl.fields = pre ++ post ∧
    c.fields = pre ++ new ++ post ∧ new.map FieldDecl.summary = entry.fields

theorem Promotes.reportedAs {result : Except (List Error) Report} {new : Promoted}
    (h : m.Promotes hosts options out result) (hnew : m.Succeeds hosts options out d new) :
    out.ReportedAs options.defaultVisibility d { cls := d.name, fields := new.fields } := by
  obtain ⟨index, hindex⟩ := hnew.2.promote
  have hable : d.decl.Promotable index := (ClassDecl.exists_promote_iff options).mp ⟨new, hindex⟩
  obtain ⟨pre, fs, post, hold, hfields, hsummary, -, -⟩ := ClassDecl.promote_fields hindex
  refine ⟨rfl, hable.single, ClassDecl.fields_eq_of_ok hindex, new.decl, pre, fs, post, ?_, hold,
    hfields, hsummary.symm⟩
  rw [classAt?, h.accepted d new hnew]
  rfl

/-- The classes that are tried are all classes of the module. -/
theorem IsSchedule.perm_declared {trials : List Trial} (h : m.Promotes hosts options out (.ok report))
    (hsched : m.IsSchedule hosts options out trials) :
    (trials.map Trial.cls).Perm m.declared := by
  -- the trials are in strict order, so no class is tried twice
  have hnodup : (trials.map Trial.cls).Nodup := by
    rw [List.Nodup, List.pairwise_map]
    refine hsched.sorted.imp fun hbefore heq => ?_
    rw [heq] at hbefore
    exact hbefore.asymm hbefore
  apply (List.perm_ext_iff_of_nodup hnodup m.nodup_declared).mpr
  intro d
  constructor
  · intro hd
    obtain ⟨t, ht, rfl⟩ := List.mem_map.mp hd
    exact mem_of_declaration? ((hsched.mem_iff t).mp ht).1.declaration?
  · intro hd
    obtain ⟨new, hnew⟩ := h.exists_succeeds hd
    exact List.mem_map.mpr ⟨⟨d, .ok new⟩, (hsched.mem_iff _).mpr hnew, rfl⟩

/-- Every class that is tried has its entry. -/
theorem IsSchedule.forall₂_reportedAs {trials : List Trial}
    (h : m.Promotes hosts options out (.ok report))
    (hsched : m.IsSchedule hosts options out trials) :
    List.Forall₂ (out.ReportedAs options.defaultVisibility) (trials.map Trial.cls)
      (trials.filterMap Trial.report?) := by
  have hentry : ∀ t ∈ trials, ∃ entry, t.report? = some entry ∧
      out.ReportedAs options.defaultVisibility t.cls entry := by
    intro t ht
    obtain ⟨hatt, hgives⟩ := (hsched.mem_iff t).mp ht
    -- there are no errors, so the attempt was successful
    obtain ⟨new, hnew⟩ := h.exists_succeeds (mem_of_declaration? hatt.declaration?)
    have hresult : t.result = .ok new := hgives.unique hnew.2
    refine ⟨_, ?_, h.reportedAs hnew⟩
    rw [Trial.report?, hresult]
  clear hsched
  induction trials with
  | nil => exact List.Forall₂.nil
  | cons t trials ih =>
    rw [List.forall_mem_cons] at hentry
    obtain ⟨⟨entry, hsome, hreported⟩, hrest⟩ := hentry
    rw [List.map_cons, List.filterMap_cons, hsome]
    exact List.Forall₂.cons hreported (ih hrest)

end Module

/-! ## §4 The report of a run -/

/-- A report describes a module: it has one entry for each class, in the order of the depth of
inheritance and then of the source, no two entries are of one name, and there are as many fields in it
as there are parameters with `var` or `final` anywhere in the module. -/
structure Report.Describes (report : Report) (m : Module) (hosts : List HostClass)
    (default : Visibility) (out : Module) : Prop where
  classes : ∃ ds : List Declared, ds.Perm m.declared ∧ ds.Pairwise (m.Before hosts) ∧
    List.Forall₂ (out.ReportedAs default) ds report.classes
  distinct : (report.classes.map ClassReport.cls).Nodup
  fieldCount : report.fieldCount = (m.params.filter Param.hasStorage).length

theorem Report.fieldCount_eq (report : Report) :
    report.fieldCount = (report.classes.flatMap ClassReport.fields).length := by
  rw [Report.fieldCount]
  induction report.classes with
  | nil => rfl
  | cons c cs ih => rw [List.foldr_cons, ih, List.flatMap_cons, List.length_append]

namespace Module

variable {m out : Module} {hosts : List HostClass} {options : Options} {report : Report}
  {default : Visibility} {ds : List Declared} {entries : List ClassReport}

theorem map_cls_of_reportedAs (h : List.Forall₂ (out.ReportedAs default) ds entries) :
    entries.map ClassReport.cls = ds.map Declared.name := by
  induction h with
  | nil => rfl
  | cons hentry _ ih => rw [List.map_cons, List.map_cons, hentry.cls, ih]

/-- The entries have as many fields as the classes have argument fields. -/
theorem length_fields_of_reportedAs (h : List.Forall₂ (out.ReportedAs default) ds entries) :
    (entries.flatMap ClassReport.fields).length =
      (ds.flatMap fun d => d.decl.argumentFields).length := by
  induction h with
  | nil => rfl
  | cons hentry _ ih => simp [hentry.fields, ih]

/-- When promotion succeeds, the report describes the module. -/
theorem describes_of_ok (h : (m.promote (ClassTable.ofHost hosts) options).result = .ok report) :
    report.Describes m hosts options.defaultVisibility
      (m.promote (ClassTable.ofHost hosts) options).module := by
  have hout := promotes_promote m hosts options
  rw [h] at hout
  obtain ⟨trials, hsched, hresult⟩ := hout.result
  obtain ⟨-, rfl⟩ := verdict_eq_ok_iff.mp hresult.symm
  have hperm := hsched.perm_declared hout
  have hentries := hsched.forall₂_reportedAs hout
  constructor
  · exact ⟨_, hperm, List.pairwise_map.mpr hsched.sorted, hentries⟩
  · -- no class is a repeat, so a name belongs to one class only
    rw [map_cls_of_reportedAs hentries, (hperm.map Declared.name).nodup_iff]
    refine m.nodup_declared.map_on fun d hd e he heq => ?_
    obtain ⟨_, hnew⟩ := hout.exists_succeeds hd
    obtain ⟨_, hnew'⟩ := hout.exists_succeeds he
    have hfirst := hnew.1.declaration?
    rw [heq, hnew'.1.declaration?] at hfirst
    exact (Option.some.inj hfirst).symm
  · calc (⟨trials.filterMap Trial.report?⟩ : Report).fieldCount
      _ = ((trials.map Trial.cls).flatMap fun d => d.decl.argumentFields).length := by
        rw [Report.fieldCount_eq, length_fields_of_reportedAs hentries]
      _ = (m.declared.flatMap fun d => d.decl.argumentFields).length :=
        (hperm.flatMap_right _).length_eq
      _ = (m.classes.flatMap ClassDecl.argumentFields).length := by
        rw [← m.map_decl_declared, List.flatMap_map]
      _ = (m.params.filter Param.hasStorage).length := by
        -- nothing is misplaced, so there are no others
        rw [filter_params hout.misplaced_eq_nil]

/-- A class two levels below one of the host, its superclass after it, a function, and a class without
constructor. -/
def drawing : Module where
  statements :=
    [.classDecl { ClassDecl.named "Square" with
        superclass := some { name := "Shape" }
        members :=
          [.field (.make .var .priv "corner" none),
           .ctor (.make
            [((Param.named "side").withModifier (.visibility .pub)).withModifier (.storage .var),
             .named "scale",
             (Param.named "color").withModifier (.storage .final)] [])] },
     .classDecl { ClassDecl.named "Shape" with
        superclass := some { name := "Item" }
        members := [.ctor (.make [(Param.named "label").withModifier (.storage .final)] [])] },
     .funDecl (.make "area" [.named "shape"] []),
     .classDecl (ClassDecl.named "Grid")]

theorem describes_drawing : ∃ report,
    (drawing.promote (ClassTable.ofHost [{ name := "Item" }]) {}).result = .ok report ∧
    report.fieldCount = 3 ∧
    report.Describes drawing [{ name := "Item" }] .priv
      (drawing.promote (ClassTable.ofHost [{ name := "Item" }]) {}).module := by
  have h : (drawing.promote (ClassTable.ofHost [{ name := "Item" }]) {}).result =
      .ok { classes := [{ cls := "Grid", fields := [] },
        { cls := "Shape", fields := [⟨"label", .final, .priv, {}⟩] },
        { cls := "Square", fields := [⟨"side", .var, .pub, {}⟩, ⟨"color", .final, .priv, {}⟩] }] } := by
    cbv
  exact ⟨_, h, rfl, describes_of_ok h⟩

end Module

end FieldPromotion
