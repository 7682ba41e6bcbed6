import FieldPromotion.Proofs.InheritanceOrder
import FieldPromotion.Proofs.Steps

/-!
# The run over a module

The classes with a chain are looked at with the shorter chains first. So when a class is looked at,
all classes above it are finished, and it is itself still as it was written. This makes the run an
outcome as described class by class.
-/

namespace FieldPromotion.Module

variable {m : Module} {hosts : List HostClass} {options : Options} {id a : ClassId}
  {d e : Declared} {t : Trial} {ids pre post : List ClassId} {ns : List String} {new : Promoted}
  {p : Progress} {spoilt : List Nat} {r : Except (List Error) Promoted}

/-! ## §1 Before and after a class -/

/-- The progress of a module after some classes. -/
def after (m : Module) (hosts : List HostClass) (options : Options) (ids : List ClassId) :
    Progress :=
  (m.start (ClassTable.ofHost hosts)).run options m.checkContexts.failed ids

/-- The progress of a module after all classes. -/
def final (m : Module) (hosts : List HostClass) (options : Options) : Progress :=
  m.finish (ClassTable.ofHost hosts) options

/-- The attempts of the whole run. -/
def trials (m : Module) (hosts : List HostClass) (options : Options) : List Trial :=
  (m.start (ClassTable.ofHost hosts)).trials options m.checkContexts.failed
    (m.table hosts).inheritanceOrder.order

theorem frame_after (m : Module) (hosts : List HostClass) (options : Options)
    (ids : List ClassId) : (m.after hosts options ids).table.frame = (m.table hosts).frame :=
  Progress.frame_run _ _ _ _

/-- No class is looked at twice. -/
theorem nodup_order : (m.table hosts).inheritanceOrder.order.Nodup := by
  refine pairwise_order.imp_of_mem ?_
  rintro a b ha - hlt rfl
  obtain ⟨d, ns, hd, hns⟩ := mem_order_iff.mp ha
  have := hlt d d ns ns hd hd hns hns
  omega

/-- The place of a class in the run. -/
abbrev Split (m : Module) (hosts : List HostClass) (pre : List ClassId) (id : ClassId)
    (post : List ClassId) : Prop :=
  (m.table hosts).inheritanceOrder.order = pre ++ id :: post

/-- A class with a chain has its place in the run. -/
theorem exists_split (hd : (m.roster hosts)[id]? = some (.own d))
    (hns : m.Chain hosts d.superclass ns) : ∃ pre post, m.Split hosts pre id post := by
  apply List.append_of_mem
  exact mem_order_iff.mpr ⟨d, ns, hd, hns⟩

namespace Split

variable (h : m.Split hosts pre id post)
include h

theorem not_mem : id ∉ pre ∧ id ∉ post := by
  have hnodup := @nodup_order m hosts
  rw [h] at hnodup
  simp only [List.nodup_append, List.nodup_cons, List.mem_cons] at hnodup
  exact ⟨fun hid => hnodup.2.2 id hid id (Or.inl rfl) rfl, hnodup.2.1.1⟩

/-- The run is made up of what comes before a class, the step at the class, and what comes after
it. -/
theorem final_eq : m.final hosts options =
    ((m.after hosts options pre).step options m.checkContexts.failed id).run options
      m.checkContexts.failed post := by
  show (m.start (ClassTable.ofHost hosts)).run options m.checkContexts.failed
    (m.table hosts).inheritanceOrder.order = _
  rw [h, Progress.run_append, Progress.run_cons]
  rfl

/-- The ancestors of a class are not looked at from there on. -/
theorem ancestor_not_mem (ha : a ∈ (m.table hosts).ancestors id) : a ∉ id :: post := by
  have hid : id ∈ (m.table hosts).inheritanceOrder.order := by
    rw [h]
    exact List.mem_append_right _ List.mem_cons_self
  obtain ⟨d, ns, hd, hns⟩ := mem_order_iff.mp hid
  -- its chain is shorter
  obtain ⟨n, habove, hn⟩ := (mem_ancestors_table hd).mp ha
  obtain ⟨w, ks, hw, hks, hlt, -⟩ := hns.of_mem (hns.above_iff.mp habove)
  obtain ⟨w', hw', hwa⟩ := meaning_of_lookup hn
  obtain rfl : w = w' := Option.some.inj (hw.symm.trans hw')
  intro hmem
  have ho : a ∈ (m.table hosts).inheritanceOrder.order := by
    rw [h]
    exact List.mem_append_right _ hmem
  obtain ⟨e, ks', he, hks'⟩ := mem_order_iff.mp ho
  obtain rfl : w = .own e := Option.some.inj (hwa.symm.trans he)
  obtain rfl := hks.unique hks'
  rcases List.mem_cons.mp hmem with rfl | hpost
  · -- a class is not above itself
    obtain rfl : d = e := by simpa using hd.symm.trans he
    rw [hns.unique hks'] at hlt
    exact Nat.lt_irrefl _ hlt
  · have hsorted := @pairwise_order m hosts
    rw [h, List.pairwise_append, List.pairwise_cons] at hsorted
    have := hsorted.2.1.1 a hpost d e ns ks hd he hns hks'
    omega

/-- From there on nothing changes for the ancestors of a class. -/
theorem final_ancestor (ha : a ∈ (m.table hosts).ancestors id) :
    (m.final hosts options).table.get? a = (m.after hosts options pre).table.get? a ∧
      (a ∈ (m.final hosts options).failed ↔ a ∈ (m.after hosts options pre).failed) := by
  obtain ⟨hne, hpost⟩ := List.ne_and_not_mem_of_not_mem_cons (h.ancestor_not_mem ha)
  rw [h.final_eq, Progress.get?_run hpost, Progress.get?_step hne, Progress.mem_failed_run hpost,
    Progress.mem_failed_step hne]
  exact ⟨rfl, Iff.rfl⟩

end Split

/-- Attempts at other classes are at other positions. -/
theorem position_ne (hp : p.table.frame = (m.table hosts).frame)
    (hd : (m.roster hosts)[id]? = some (.own d)) (hid : id ∉ ids)
    (ht : t ∈ p.trials options spoilt ids) : t.cls.position ≠ d.position := by
  obtain ⟨pre, a, post, rfl, ha⟩ := Progress.mem_trials_iff.mp ht
  have hi := (Progress.trial?_eq_some_iff.mp ha).1
  rw [ClassTable.statement_of_frame ((Progress.frame_run _ _ _ _).trans hp)] at hi
  obtain ⟨e, he, hpos⟩ := own_of_statement hi
  intro heq
  -- classes at one position are one class
  have hed : e = d := Declared.eq_of_position (mem_declared_of_roster he)
    (mem_declared_of_roster hd) (hpos.trans heq)
  subst hed
  obtain rfl := roster_own_inj he hd
  exact hid (List.mem_append_right _ List.mem_cons_self)

/-- When the run comes to a class, its statement is still the one of the module. -/
theorem Split.statement_eq (h : m.Split hosts pre id post)
    (hd : (m.roster hosts)[id]? = some (.own d)) :
    (m.after hosts options pre).statements[d.position]? = m.statements[d.position]? :=
  Progress.statements_run fun _ ht _ _ => position_ne rfl hd h.not_mem.1 ht

/-- A class is tried as it was written. -/
theorem Split.cls_eq (h : m.Split hosts pre id post)
    (hd : (m.roster hosts)[id]? = some (.own d))
    (ht : (m.after hosts options pre).trial? options m.checkContexts.failed id = some t) :
    t.cls = d := by
  obtain ⟨hi, hc, -⟩ := Progress.trial?_eq_some_iff.mp ht
  rw [ClassTable.statement_of_frame (frame_after m hosts options pre), statement_own hd,
    Option.some.injEq] at hi
  rw [← hi, h.statement_eq hd] at hc
  have hdecl : m.classAt? d.position = some d.decl :=
    mem_declared_iff.mp (mem_declared_of_roster hd)
  obtain ⟨⟨i, c⟩, r⟩ := t
  obtain ⟨j, x⟩ := d
  simp only at hi hc hdecl ⊢
  rw [Module.classAt?, hc, Option.some.injEq] at hdecl
  rw [hi, hdecl]

/-- The attempts of a run at a class are the attempts at its place. -/
theorem Split.mem_trials_iff (h : m.Split hosts pre id post)
    (hd : (m.roster hosts)[id]? = some (.own d)) : ⟨d, r⟩ ∈ m.trials hosts options ↔
      (m.after hosts options pre).trial? options m.checkContexts.failed id = some ⟨d, r⟩ := by
  rw [trials, Progress.mem_trials_iff]
  constructor
  · rintro ⟨pre', id', post', hsplit', ht⟩
    have hid' : id' ∈ (m.table hosts).inheritanceOrder.order := by
      rw [hsplit']
      exact List.mem_append_right _ List.mem_cons_self
    obtain ⟨e, ks, he, hks⟩ := mem_order_iff.mp hid'
    obtain rfl : d = e := Split.cls_eq hsplit' he ht
    obtain rfl := roster_own_inj hd he
    -- a class has one place in the run
    obtain ⟨rfl, -, -⟩ := (List.append_cons_inj_of_notMem h.not_mem.1 h.not_mem.2).mp
      (h.symm.trans hsplit')
    exact ht
  · intro ht
    exact ⟨pre, id, post, h, ht⟩

/-- Every attempt is at a class of the module with a chain. -/
theorem roster_of_mem_trials (ht : t ∈ m.trials hosts options) :
    ∃ (id : ClassId) (ns : List String), (m.roster hosts)[id]? = some (.own t.cls) ∧
      m.Chain hosts t.cls.superclass ns := by
  obtain ⟨pre, id, post, hsplit, ht⟩ := Progress.mem_trials_iff.mp ht
  have hid : id ∈ (m.table hosts).inheritanceOrder.order := by
    rw [hsplit]
    exact List.mem_append_right _ List.mem_cons_self
  obtain ⟨d, ns, hd, hns⟩ := mem_order_iff.mp hid
  obtain rfl := Split.cls_eq hsplit hd ht
  exact ⟨id, ns, hd, hns⟩

/-! ## §2 The end of a class -/

/-- A class fails the check of contexts when something is misplaced in it. -/
theorem mem_failed_checkContexts_iff (hd : d ∈ m.declared) :
    d.position ∈ m.checkContexts.failed ↔ (Stmt.classDecl d.decl).misplacedTop ≠ [] := by
  rw [mem_failed_checkContexts, mem_declared_iff.mp hd]
  simp

/-- A class has failed in the end exactly if it was not accepted. -/
theorem mem_failed_final_iff (hd : (m.roster hosts)[id]? = some (.own d)) :
    id ∈ (m.final hosts options).failed ↔ ¬ ∃ new, ⟨d, .ok new⟩ ∈ m.trials hosts options := by
  by_cases hchain : ∃ ns, m.Chain hosts d.superclass ns
  · obtain ⟨ns, hns⟩ := hchain
    obtain ⟨pre, post, hsplit⟩ := exists_split hd hns
    simp only [hsplit.mem_trials_iff hd]
    rw [hsplit.final_eq, Progress.mem_failed_run hsplit.not_mem.2]
    cases ht : (m.after hosts options pre).trial? options m.checkContexts.failed id with
    | none =>
      -- passed over
      obtain ⟨failed, events, hstep, -, hmem⟩ := Progress.step_of_no_trial ht
      rw [hstep]
      have hc : m.classAt? d.position = some d.decl :=
        mem_declared_iff.mp (mem_declared_of_roster hd)
      rw [ClassTable.statement_of_frame (frame_after m hosts options pre)] at hmem
      rw [Module.classAt?, ← hsplit.statement_eq hd] at hc
      simpa using hmem d.position d.decl (statement_own hd) hc
    | some t =>
      obtain rfl := hsplit.cls_eq hd ht
      have hnot := (Progress.trial?_eq_some_iff.mp ht).2.2.1
      rw [Progress.step_of_trial ht]
      obtain ⟨d, r⟩ := t
      cases r with
      | ok new =>
        show id ∈ (m.after hosts options pre).failed ↔ _
        simpa using hnot
      | error errors =>
        show id ∈ id :: (m.after hosts options pre).failed ↔ _
        simp
  · -- without chain it has failed from the start, and is never tried
    have horder : id ∉ (m.table hosts).inheritanceOrder.order := by
      intro hid
      obtain ⟨e, ns, he, hns⟩ := mem_order_iff.mp hid
      obtain rfl : d = e := by simpa using hd.symm.trans he
      exact hchain ⟨ns, hns⟩
    have hstart : id ∈ (m.start (ClassTable.ofHost hosts)).failed :=
      mem_failed_start_iff.mpr ⟨d, hd, fun h => hchain h.2⟩
    have hfinal : id ∈ (m.final hosts options).failed := (Progress.mem_failed_run horder).mpr hstart
    refine iff_of_true hfinal ?_
    rintro ⟨new, hnew⟩
    obtain ⟨-, ns, -, hns⟩ := roster_of_mem_trials hnew
    exact hchain ⟨ns, hns⟩

/-- An accepted class stands in the final module as promotion made it, and its new fields are in
the table. -/
theorem final_of_accepted (hd : (m.roster hosts)[id]? = some (.own d))
    (hnew : ⟨d, .ok new⟩ ∈ m.trials hosts options) :
    (m.final hosts options).statements[d.position]? = some (.classDecl new.decl) ∧
      (m.final hosts options).table.listing id =
        (d.name, d.decl.sites ++ new.fields.map FieldSummary.site) := by
  obtain ⟨-, ns, -, hns⟩ := roster_of_mem_trials hnew
  obtain ⟨pre, post, hsplit⟩ := exists_split hd hns
  have ht := (hsplit.mem_trials_iff hd).mp hnew
  have hstep : (m.after hosts options pre).step options m.checkContexts.failed id =
      ((m.after hosts options pre).put d.position new.decl).accept id new :=
    Progress.step_of_trial ht
  constructor
  · rw [hsplit.final_eq, Progress.statements_run, hstep]
    · show ((m.after hosts options pre).statements.set d.position _)[d.position]? = _
      -- the statement is there, because the class was found in it
      have hlt : d.position < (m.after hosts options pre).statements.length := by
        obtain ⟨s, hs, -⟩ := Option.bind_eq_some_iff.mp (Progress.trial?_eq_some_iff.mp ht).2.1
        exact (List.getElem?_eq_some_iff.mp hs).1
      exact List.getElem?_set_self hlt
    · intro u hu _ _
      refine position_ne ?_ hd hsplit.not_mem.2 hu
      exact (Progress.frame_step _ _ _ _).trans (frame_after m hosts options pre)
  · have hget : (m.final hosts options).table.get? id =
        some { (Meaning.own d).entry with
          parent := d.superclass.bind (m.table hosts).lookup
          fields := d.decl.sites ++ new.fields.map FieldSummary.site } := by
      rw [hsplit.final_eq, Progress.get?_run hsplit.not_mem.2, hstep]
      apply (ClassTable.get?_addFields _ _ _ _).trans
      -- until its turn comes, the entry of the class is that of the registered module
      have hold : (m.after hosts options pre).table.get? id = (m.table hosts).get? id :=
        Progress.get?_run hsplit.not_mem.1
      rw [Progress.table_put, hold, table_get?, hd]
      simp [Meaning.superclass, Meaning.sites]
    rw [ClassTable.listing, ClassTable.nameOf, hget]
    rfl

/-- Only classes of the module fail. -/
theorem own_of_failed (h : id ∈ (m.final hosts options).failed) :
    ∃ d, (m.roster hosts)[id]? = some (.own d) := by
  by_cases hid : id ∈ (m.table hosts).inheritanceOrder.order
  · obtain ⟨d, -, hd, -⟩ := mem_order_iff.mp hid
    exact ⟨d, hd⟩
  · have hstart := (Progress.mem_failed_run hid).mp h
    obtain ⟨d, hd, -⟩ := mem_failed_start_iff.mp hstart
    exact ⟨d, hd⟩

theorem listing_table {w : Meaning} (hw : (m.roster hosts)[id]? = some w) :
    (m.table hosts).listing id = (w.name, w.sites) := by
  rw [ClassTable.listing, ClassTable.nameOf, table_get?, hw]
  simp

/-- The fields of a host class stay as the host registered them. -/
theorem listing_final_host {x : HostClass} (hx : (m.roster hosts)[id]? = some (.host x)) :
    (m.final hosts options).table.listing id = (x.name, x.fields) := by
  have horder : id ∉ (m.table hosts).inheritanceOrder.order := by
    intro hid
    obtain ⟨d, -, hd, -⟩ := mem_order_iff.mp hid
    rw [hx] at hd
    cases hd
  apply Eq.trans _ (listing_table hx)
  exact ClassTable.listing_congr (Progress.get?_run horder)

/-! ## §3 What is tried, and with which fields in sight -/

/-- A class with a chain has failed before it is looked at exactly if it is a repeat. -/
theorem Split.not_mem_failed_iff (h : m.Split hosts pre id post)
    (hd : (m.roster hosts)[id]? = some (.own d)) (hns : m.Chain hosts d.superclass ns) :
    id ∉ (m.after hosts options pre).failed ↔ m.declaration? d.name = some d := by
  have hstart : id ∈ (m.after hosts options pre).failed ↔ _ :=
    Progress.mem_failed_run h.not_mem.1
  rw [hstart, mem_failed_start_iff, hd]
  constructor
  · intro hnot
    by_contra hrep
    exact hnot ⟨d, rfl, fun hboth => hrep hboth.1⟩
  · rintro hfirst ⟨e, he, hnot⟩
    obtain rfl : d = e := by simpa using he
    exact hnot ⟨hfirst, ns, hns⟩

/-- When a class is looked at, it has its own fields, and the classes above it have the fields that
they have in the end. -/
theorem Split.shows_fieldIndex (h : m.Split hosts pre id post)
    (hd : (m.roster hosts)[id]? = some (.own d)) (options : Options) :
    ((m.after hosts options pre).table.fieldIndex id).Shows ((d.name, d.decl.sites) ::
      ((m.table hosts).ancestors id).map (m.final hosts options).table.listing) := by
  have hown : (m.after hosts options pre).table.listing id = (d.name, d.decl.sites) := by
    apply Eq.trans _ (listing_table hd)
    exact ClassTable.listing_congr (Progress.get?_run h.not_mem.1)
  have habove : ∀ a ∈ (m.table hosts).ancestors id,
      (m.after hosts options pre).table.listing a = (m.final hosts options).table.listing a :=
    fun a ha => ClassTable.listing_congr (h.final_ancestor ha).1.symm
  have hshows := ClassTable.shows_fieldIndex (m.after hosts options pre).table id
  rw [List.map_cons, ClassTable.ancestors_of_frame (frame_after m hosts options pre), hown,
    List.map_congr_left habove] at hshows
  exact hshows

/-- When a class is tried, and to which result, in terms of the end of the run. -/
theorem mem_trials_iff_failed (hd : (m.roster hosts)[id]? = some (.own d))
    (hns : m.Chain hosts d.superclass ns) : ⟨d, r⟩ ∈ m.trials hosts options ↔
      m.declaration? d.name = some d ∧ (Stmt.classDecl d.decl).misplacedTop = [] ∧
      (∀ a ∈ (m.table hosts).ancestors id, a ∉ (m.final hosts options).failed) ∧
      ∃ index : FieldIndex, index.Shows ((d.name, d.decl.sites) ::
          ((m.table hosts).ancestors id).map (m.final hosts options).table.listing) ∧
        d.decl.promote index options = r := by
  obtain ⟨pre, post, hsplit⟩ := exists_split hd hns
  have hframe := frame_after m hosts options pre
  have hstatement : ((m.after hosts options pre).table.get? id).bind ClassEntry.statement =
      some d.position := by
    rw [ClassTable.statement_of_frame hframe, statement_own hd]
  have hclass : ((m.after hosts options pre).statements[d.position]?).bind Stmt.class? =
      some d.decl := by
    rw [hsplit.statement_eq hd]
    exact mem_declared_iff.mp (mem_declared_of_roster hd)
  have hplaced : d.position ∉ m.checkContexts.failed ↔ (Stmt.classDecl d.decl).misplacedTop = [] := by
    rw [mem_failed_checkContexts_iff (mem_declared_of_roster hd), not_not]
  -- the classes above have had their turn, and nothing that follows changes them
  have habove : (∀ a ∈ (m.after hosts options pre).table.ancestors id,
      a ∉ (m.after hosts options pre).failed) ↔
        ∀ a ∈ (m.table hosts).ancestors id, a ∉ (m.final hosts options).failed := by
    rw [ClassTable.ancestors_of_frame hframe]
    exact forall₂_congr fun a ha => not_congr (hsplit.final_ancestor ha).2.symm
  have hshows := hsplit.shows_fieldIndex hd options
  rw [hsplit.mem_trials_iff hd, Progress.trial?_eq_some_iff, hsplit.not_mem_failed_iff hd hns,
    hplaced, habove]
  constructor
  · rintro ⟨-, -, h1, h2, h3, hr⟩
    exact ⟨h1, h2, h3, _, hshows, hr⟩
  · rintro ⟨h1, h2, h3, index, hindex, hr⟩
    refine ⟨hstatement, hclass, h1, h2, h3, ?_⟩
    rw [← hr]
    exact ClassDecl.promote_congr (fun n => (hshows n).trans (hindex n).symm) d.decl options

/-- No class above has failed exactly if all classes of the module above are accepted. -/
theorem ancestors_accepted_iff (hd : (m.roster hosts)[id]? = some (.own d))
    (hns : m.Chain hosts d.superclass ns) :
    (∀ a ∈ (m.table hosts).ancestors id, a ∉ (m.final hosts options).failed) ↔
      ∀ n ∈ ns, ∀ e, m.declaration? n = some e → ∃ new, ⟨e, .ok new⟩ ∈ m.trials hosts options := by
  constructor
  · intro h n hn e he
    obtain ⟨a, ha, hea⟩ := lookup_of_meaning (meaning_own hosts he)
    have hmem : a ∈ (m.table hosts).ancestors id :=
      (mem_ancestors_table hd).mpr ⟨n, hns.above_iff.mpr hn, ha⟩
    by_contra hnot
    exact h a hmem ((mem_failed_final_iff hea).mpr hnot)
  · intro h a ha hfailed
    obtain ⟨n, habove, hn⟩ := (mem_ancestors_table hd).mp ha
    -- only a class of the module can fail
    obtain ⟨e, he⟩ := own_of_failed hfailed
    obtain ⟨w, hw, hwa⟩ := meaning_of_lookup hn
    obtain rfl : w = .own e := Option.some.inj (hwa.symm.trans he)
    apply (mem_failed_final_iff he).mp hfailed
    exact h n (hns.above_iff.mp habove) e (declaration?_of_meaning_own hw)

/-- The module after the run. -/
def finalModule (m : Module) (hosts : List HostClass) (options : Options) : Module :=
  { m with statements := (m.final hosts options).statements }

/-- The run keeps the heads of all classes. -/
theorem sameHeads_final (m : Module) (hosts : List HostClass) (options : Options) :
    m.SameHeads (m.finalModule hosts options) := by
  apply SameHeads.of_promoted
  intro i
  by_cases hex : ∃ d new, ⟨d, .ok new⟩ ∈ m.trials hosts options ∧ d.position = i
  · obtain ⟨d, new, hnew, rfl⟩ := hex
    obtain ⟨id, ns, hd, hns⟩ := roster_of_mem_trials hnew
    obtain ⟨-, -, -, index, -, hpromote⟩ := (mem_trials_iff_failed hd hns).mp hnew
    refine Or.inr ⟨d.decl, index, options, new, ?_, hpromote, (final_of_accepted hd hnew).1⟩
    exact mem_declared_iff.mp (mem_declared_of_roster hd)
  · apply Or.inl
    refine Progress.statements_run fun t ht new hnew hi => hex ⟨t.cls, new, ?_, hi⟩
    rw [← hnew]
    exact ht

/-- Names are found in the table of the end as they are found in the module after the run. -/
theorem listing_final {n name : String} (hn : (m.table hosts).lookup n = some a)
    (hacc : ∀ e, m.declaration? n = some e → ∃ new, ⟨e, .ok new⟩ ∈ m.trials hosts options) :
    ((m.final hosts options).table.listing a).1 = n ∧
      ((m.final hosts options).table.listing a).2.find? (·.name == name) =
        ((m.finalModule hosts options).sitesOf hosts n).find? (·.name == name) := by
  have hheads := sameHeads_final m hosts options
  obtain ⟨w, hw, hwa⟩ := meaning_of_lookup hn
  have hname := name_of_meaning hw
  cases w with
  | host x =>
    -- host classes stay as they are
    have hnone : m.declaration? n = none := by
      cases he : m.declaration? n with
      | none => rfl
      | some e => rw [meaning_own hosts he] at hw; cases hw
    have hout : (m.finalModule hosts options).meaning hosts n = some (.host x) := by
      rw [← hw, Module.meaning, Module.meaning, hnone, hheads.declaration?_eq_none hnone]
    rw [listing_final_host hwa, sitesOf, hout]
    exact ⟨hname, rfl⟩
  | own e =>
    -- new fields are added at the end of the table's list, and somewhere in the class
    have he := declaration?_of_meaning_own hw
    obtain ⟨new, hnew⟩ := hacc e he
    obtain ⟨-, ns, -, hns⟩ := roster_of_mem_trials hnew
    obtain ⟨hstatement, hlisting⟩ := final_of_accepted hwa hnew
    obtain ⟨-, -, -, index, hshows, hpromote⟩ := (mem_trials_iff_failed hwa hns).mp hnew
    obtain ⟨c, hc, -, -, hout⟩ := hheads.declaration? he
    obtain rfl : new.decl = c := by
      rw [Module.classAt?, finalModule, hstatement] at hc
      exact Option.some.inj hc
    rw [hlisting, sitesOf, meaning_own hosts hout]
    refine ⟨hname, (ClassDecl.find?_sites_promote hpromote ?_ name).symm⟩
    intro f hf hnone
    rw [hshows.get?_eq_none_iff] at hnone
    exact hnone _ List.mem_cons_self f.site (List.mem_map_of_mem hf) rfl

theorem map_eq_map_of_lookup {α : Type} {lookup : String → Option ClassId} {f : ClassId → α}
    {g : String → α} {as : List ClassId} {ns : List String} (h : as.map some = ns.map lookup)
    (hfg : ∀ n ∈ ns, ∀ a, lookup n = some a → f a = g n) : as.map f = ns.map g := by
  induction ns generalizing as with
  | nil =>
    obtain rfl : as = [] := by simpa using h
    rfl
  | cons n ns ih =>
    cases as with
    | nil => cases h
    | cons a as =>
      obtain ⟨ha, has⟩ := List.cons_eq_cons.mp h
      rw [List.map_cons, List.map_cons, hfg n List.mem_cons_self a ha.symm,
        ih has fun k hk => hfg k (List.mem_cons_of_mem n hk)]

/-- When a class is tried, and to which result, in terms of the module after the run. -/
theorem mem_trials_iff (hd : (m.roster hosts)[id]? = some (.own d))
    (hns : m.Chain hosts d.superclass ns) : ⟨d, r⟩ ∈ m.trials hosts options ↔
      m.declaration? d.name = some d ∧ (Stmt.classDecl d.decl).misplacedTop = [] ∧
      (∀ n ∈ ns, ∀ e, m.declaration? n = some e → ∃ new, ⟨e, .ok new⟩ ∈ m.trials hosts options) ∧
      m.Gives hosts options (m.finalModule hosts options) d r := by
  rw [mem_trials_iff_failed hd hns, ancestors_accepted_iff hd hns]
  refine and_congr_right fun _ => and_congr_right fun _ => and_congr_right fun hacc => ?_
  -- the entries of the table and the classes of the result list the same fields, if the classes
  -- above have succeeded
  have hnear : ∀ name, nearest? ((d.name, d.decl.sites) ::
      ((m.table hosts).ancestors id).map (m.final hosts options).table.listing) name =
        nearest? ((m.finalModule hosts options).lineage hosts d ns) name := by
    intro name
    apply nearest?_congr
    rw [lineage, List.map_cons, List.map_cons, List.map_map, List.map_map]
    congr 1
    refine map_eq_map_of_lookup (map_ancestors_table hd hns) fun n hn a ha => ?_
    obtain ⟨hname, hfind⟩ := listing_final ha (hacc n hn)
    exact Prod.ext hname hfind
  constructor
  · rintro ⟨index, hshows, hr⟩
    exact ⟨ns, index, hns, fun name => (hshows name).trans (hnear name), hr⟩
  · rintro ⟨ns', index, hns', hshows, hr⟩
    obtain rfl := hns.unique hns'
    exact ⟨index, fun name => (hshows name).trans (hnear name).symm, hr⟩

/-! ## §4 The run is an outcome -/

/-- The attempts of the run are those of the description. Both say the same of a class as soon as
they do so of the classes above it. -/
theorem mem_trials_iff_attempted : t ∈ m.trials hosts options ↔
    m.Attempted hosts options (m.finalModule hosts options) t.cls ∧
      m.Gives hosts options (m.finalModule hosts options) t.cls t.result := by
  by_cases hchain : ∃ ns, m.Chain hosts t.cls.superclass ns
  · obtain ⟨ns, hns⟩ := hchain
    obtain ⟨d, r⟩ := t
    change m.Chain hosts d.superclass ns at hns
    revert r
    apply hns.induction
    intro d ns hns ih r
    -- the classes above are accepted by the run exactly if they are by the description
    have habove : (∀ n ∈ ns, ∀ a, m.declaration? n = some a →
        ∃ new, ⟨a, .ok new⟩ ∈ m.trials hosts options) ↔
          ∀ n ∈ ns, ∀ a, m.declaration? n = some a →
            ∃ new, m.Succeeds hosts options (m.finalModule hosts options) a new :=
      forall₄_congr fun n hn a ha => exists_congr fun new => ih n hn a ha (.ok new)
    rw [hns.attempted_iff, ← habove, and_assoc, and_assoc]
    constructor
    · intro h
      obtain ⟨id, -, hd, -⟩ := roster_of_mem_trials h
      exact (mem_trials_iff hd hns).mp h
    · intro h
      obtain ⟨id, hd⟩ := exists_roster hosts (mem_of_declaration? h.1)
      exact (mem_trials_iff hd hns).mpr h
  · constructor
    · intro h
      obtain ⟨-, ns, -, hns⟩ := roster_of_mem_trials h
      exact absurd ⟨ns, hns⟩ hchain
    · intro h
      exact absurd h.1.chain hchain

/-- The classes that succeed by the outcome are those that the run accepts. -/
theorem succeeds_iff : m.Succeeds hosts options (m.finalModule hosts options) d new ↔
    ⟨d, .ok new⟩ ∈ m.trials hosts options := by
  rw [mem_trials_iff_attempted, Succeeds]

/-- The attempts are made in the order of the hierarchy. -/
theorem sorted_trials : (m.trials hosts options).Pairwise fun t u =>
    m.Before hosts t.cls u.cls := by
  have hpositions : ((m.trials hosts options).map (·.cls.position)).Pairwise fun i j =>
      ∀ d e, d ∈ m.declared → e ∈ m.declared → d.position = i → e.position = j →
        m.Before hosts d e := by
    refine List.Pairwise.sublist (Progress.positions_trials _ _ _ _) ?_
    rw [List.pairwise_filterMap]
    refine pairwise_order.imp_of_mem ?_
    rintro a b ha hb h i hi j hj d e hd he rfl rfl
    obtain ⟨d', ns, hd', hns⟩ := mem_order_iff.mp ha
    obtain ⟨e', ks, he', hks⟩ := mem_order_iff.mp hb
    -- the class at a position of the order is the one declared there
    have hdpos : d'.position = d.position := Option.some.inj ((statement_own hd').symm.trans hi)
    have hepos : e'.position = e.position := Option.some.inj ((statement_own he').symm.trans hj)
    obtain rfl := Declared.eq_of_position (mem_declared_of_roster hd') hd hdpos
    obtain rfl := Declared.eq_of_position (mem_declared_of_roster he') he hepos
    exact ⟨ns, ks, hns, hks, h d' e' ns ks hd' he' hns hks⟩
  rw [List.pairwise_map] at hpositions
  refine hpositions.imp_of_mem ?_
  intro t u ht hu h
  obtain ⟨_, _, hd, -⟩ := roster_of_mem_trials ht
  obtain ⟨_, _, he, -⟩ := roster_of_mem_trials hu
  exact h _ _ (mem_declared_of_roster hd) (mem_declared_of_roster he) rfl rfl

/-- The errors of the run are those of the description, in its order. -/
theorem errors_final (m : Module) (hosts : List HostClass) (options : Options) :
    (m.final hosts options).errors = m.allErrors hosts (m.trials hosts options) := by
  have hstart : (m.start (ClassTable.ofHost hosts)).errors =
      m.misplaced ++ m.repeatErrors ++ m.loopErrors hosts := by
    rw [← @duplicateErrors_table m hosts, ← cyclicErrors_table, ← m.errors_checkContexts]
    rfl
  rw [allErrors, ← hstart]
  exact Progress.errors_run _ _ _ _

/-- So are its reports. -/
theorem reports_final (m : Module) (hosts : List HostClass) (options : Options) :
    (m.final hosts options).reports = (m.trials hosts options).filterMap Trial.report? :=
  Progress.reports_run _ _ _ _

/-- The attempts of the run are a schedule of the description. -/
theorem isSchedule_trials (m : Module) (hosts : List HostClass) (options : Options) :
    m.IsSchedule hosts options (m.finalModule hosts options) (m.trials hosts options) where
  mem_iff _ := mem_trials_iff_attempted
  sorted := sorted_trials

/-- The result of a run is the verdict on its errors and reports. -/
theorem result_promote (m : Module) (hosts : List HostClass) (options : Options) :
    (m.promote (ClassTable.ofHost hosts) options).result =
      verdict (m.allErrors hosts (m.trials hosts options))
        ((m.trials hosts options).filterMap Trial.report?) := by
  rw [← errors_final, ← reports_final]
  rfl

/-- The run over a module has the outcome described class by class. -/
theorem promotes_promote (m : Module) (hosts : List HostClass) (options : Options) :
    m.Promotes hosts options (m.promote (ClassTable.ofHost hosts) options).module
      (m.promote (ClassTable.ofHost hosts) options).result where
  span := rfl
  accepted := by
    intro d new h
    have hnew := succeeds_iff.mp h
    obtain ⟨id, -, hd, -⟩ := roster_of_mem_trials hnew
    exact (final_of_accepted hd hnew).1
  kept := by
    intro i h
    refine Progress.statements_run fun t ht new hnew => h t.cls new (succeeds_iff.mpr ?_)
    rw [← hnew]
    exact ht
  result := ⟨_, isSchedule_trials m hosts options, result_promote m hosts options⟩

/-- Promotion of a module has the outcome that is described class by class, and no other. -/
theorem promote_eq_iff_promotes (m : Module) (hosts : List HostClass) (options : Options)
    (out : Module) (result : Except (List Error) Report) :
    ((m.promote (ClassTable.ofHost hosts) options).module = out ∧
        (m.promote (ClassTable.ofHost hosts) options).result = result) ↔
      m.Promotes hosts options out result := by
  constructor
  · rintro ⟨rfl, rfl⟩
    exact promotes_promote m hosts options
  · intro h
    exact (promotes_promote m hosts options).unique h

end FieldPromotion.Module
