import FieldPromotion.Proofs.Parameters
import FieldPromotion.Proofs.Run

/-!
# Promoting a module again

A second promotion finds nothing to do. Accepted classes have no modifiers left and are accepted as
they are. All other classes are still as they were written, with the same fields in sight, so they
fail again with the same errors, whatever the options are.
-/

namespace FieldPromotion

/-- What becomes of an attempt in the next run. -/
def Trial.again (options : Options) (t : Trial) : Trial :=
  match t.result with
  | .ok new =>
    { cls := { position := t.cls.position, decl := new.decl },
      result := new.decl.promote {} options }
  | .error _ => t

/-- A report without fields. -/
def ClassReport.cleared (r : ClassReport) : ClassReport :=
  { r with fields := [] }

/-- A report on the same classes without fields. -/
def Report.cleared (r : Report) : Report where
  classes := r.classes.map ClassReport.cleared

theorem verdict_cleared (errors : List Error) (reports : List ClassReport) :
    verdict errors (reports.map ClassReport.cleared) =
      (verdict errors reports).map Report.cleared := by
  cases errors <;> rfl

namespace Module

variable {m out : Module} {hosts : List HostClass} {options : Options} {d e : Declared}
  {result : Except (List Error) Report} {t : Trial} {ns : List String} {n : String}

/-! ## §1 One attempt again -/

section Attempt

variable (ht : m.Gives hosts options out t.cls t.result) (options' : Options)
include ht

/-- The class of an attempt keeps its position and its head. -/
theorem Gives.again_head : (t.again options').cls.position = t.cls.position ∧
    (t.again options').cls.name = t.cls.name ∧
    (t.again options').cls.superclass = t.cls.superclass := by
  obtain ⟨d, r⟩ := t
  cases r with
  | error errors => exact ⟨rfl, rfl, rfl⟩
  | ok new =>
    obtain ⟨index, hindex⟩ := ht.promote
    obtain ⟨hname, hsup, -⟩ := ClassDecl.promote_head hindex
    refine ⟨rfl, congrArg Ident.name hname, ?_⟩
    exact congrArg (Option.map Ident.name) hsup

theorem Gives.errors_again : (t.again options').errors = t.errors := by
  obtain ⟨d, r⟩ := t
  cases r with
  | error errors => rfl
  | ok new =>
    obtain ⟨index, hindex⟩ := ht.promote
    obtain ⟨new', -, -, hnew'⟩ :=
      ClassDecl.promote_of_settled (ClassDecl.settled_of_promote hindex) options'
    simp only [Trial.again, Trial.errors, hnew']

theorem Gives.report?_again :
    (t.again options').report? = t.report?.map ClassReport.cleared := by
  obtain ⟨-, hname, -⟩ := ht.again_head options'
  obtain ⟨d, r⟩ := t
  cases r with
  | error errors => rfl
  | ok new =>
    obtain ⟨index, hindex⟩ := ht.promote
    obtain ⟨new', -, hfields, hnew'⟩ :=
      ClassDecl.promote_of_settled (ClassDecl.settled_of_promote hindex) options'
    simp only [Trial.again] at hname
    simp only [Trial.again, Trial.report?, hnew', hfields, hname, Option.map_some,
      ClassReport.cleared]

/-- An attempt gives the expected result in the next run. -/
theorem Gives.again (hheads : m.SameHeads out) :
    out.Gives hosts options' out (t.again options').cls (t.again options').result := by
  obtain ⟨-, -, hsup⟩ := ht.again_head options'
  obtain ⟨ns, index, hns, hshows, hr⟩ := ht
  have hchain : out.Chain hosts (t.again options').cls.superclass ns := by
    rw [hsup]
    exact hheads.chain hns
  obtain ⟨d, r⟩ := t
  cases r with
  | error errors =>
    -- the class is the same, and so is what it sees
    exact ⟨ns, index, hchain, hshows, ClassDecl.promote_error_options hr options'⟩
  | ok new =>
    -- the class is settled, and it does not matter what it sees
    obtain ⟨index', hshows'⟩ := FieldIndex.exists_shows
      (out.lineage hosts ((⟨d, .ok new⟩ : Trial).again options').cls ns)
    obtain ⟨new', -, -, hnew'⟩ :=
      ClassDecl.promote_of_settled (ClassDecl.settled_of_promote hr) options'
    exact ⟨ns, index', hchain, hshows', (hnew' index').trans (hnew' {}).symm⟩

end Attempt

/-! ## §2 The classes of the next run -/

theorem Promotes.classAt?_of_not_succeeds (h : m.Promotes hosts options out result)
    (hd : d ∈ m.declared) (hnot : ¬ ∃ new, m.Succeeds hosts options out d new) :
    out.classAt? d.position = some d.decl := by
  rw [classAt?, h.kept_class hd hnot]
  rfl

theorem Promotes.classAt?_again (h : m.Promotes hosts options out result)
    (hatt : m.Attempted hosts options out t.cls)
    (ht : m.Gives hosts options out t.cls t.result) (options' : Options) :
    out.classAt? (t.again options').cls.position = some (t.again options').cls.decl := by
  obtain ⟨d, r⟩ := t
  cases r with
  | ok new =>
    show out.classAt? d.position = some new.decl
    rw [classAt?, h.accepted d new ⟨hatt, ht⟩]
    rfl
  | error errors =>
    apply h.classAt?_of_not_succeeds (mem_of_declaration? hatt.declaration?)
    rintro ⟨new, hs⟩
    cases ht.unique hs.2

/-- The first declaration of a name in the outcome is the one in the module, as the run has left
it. -/
theorem Promotes.declaration?_again (h : m.Promotes hosts options out result)
    (hatt : m.Attempted hosts options out t.cls)
    (ht : m.Gives hosts options out t.cls t.result) (hn : m.declaration? n = some t.cls)
    (options' : Options) :
    out.declaration? n = some (t.again options').cls := by
  obtain ⟨hpos, -, -⟩ := ht.again_head options'
  have hclass := h.classAt?_again hatt ht options'
  obtain ⟨c, hc, -, -, hout⟩ := h.sameHeads.declaration? hn
  rw [hpos, hc, Option.some.injEq] at hclass
  rw [hout, hclass, ← hpos]

theorem Attempted.placed_again (hatt : m.Attempted hosts options out t.cls)
    (ht : m.Gives hosts options out t.cls t.result) (options' : Options) :
    (Stmt.classDecl (t.again options').cls.decl).misplacedTop = [] := by
  obtain ⟨d, r⟩ := t
  cases r with
  | error errors => exact hatt.placed
  | ok new =>
    obtain ⟨index, hindex⟩ := ht.promote
    exact ClassDecl.misplacedTop_promote hindex hatt.placed

/-- An accepted class is accepted again. -/
theorem Succeeds.gives_again {new : Promoted} (h : m.Succeeds hosts options out d new)
    (hheads : m.SameHeads out) (options' : Options) : ∃ new', out.Gives hosts options' out
      ((⟨d, .ok new⟩ : Trial).again options').cls (.ok new') := by
  obtain ⟨index, hindex⟩ := h.2.promote
  obtain ⟨new', -, -, hnew'⟩ :=
    ClassDecl.promote_of_settled (ClassDecl.settled_of_promote hindex) options'
  refine ⟨new', ?_⟩
  rw [← hnew' {}]
  exact Gives.again (t := ⟨d, .ok new⟩) h.2 options' hheads

/-- An attempted class is attempted again. -/
theorem Promotes.attempted_again (h : m.Promotes hosts options out result)
    (hatt : m.Attempted hosts options out d) (options' : Options) :
    ∀ r, m.Gives hosts options out d r →
      out.Attempted hosts options' out ((⟨d, r⟩ : Trial).again options').cls := by
  obtain ⟨ns, hns⟩ := hatt.chain
  revert hatt
  apply hns.induction
  intro d ns hns ih hatt r hgives
  obtain ⟨-, hname, hsup⟩ := Gives.again_head (t := ⟨d, r⟩) hgives options'
  have hplaced := Attempted.placed_again (t := ⟨d, r⟩) hatt hgives options'
  have hfirst := h.declaration?_again (t := ⟨d, r⟩) hatt hgives hatt.declaration? options'
  have hchain := h.sameHeads.chain hns
  rw [← hsup] at hchain
  rw [← hname] at hfirst
  refine hchain.attempted_iff.mpr ⟨hfirst, hplaced, fun n hn b hb => ?_⟩
  -- a class of the outcome above it is an accepted class of the module
  obtain ⟨c, -, -, -, ha⟩ := h.sameHeads.symm.declaration? hb
  obtain ⟨new, hs⟩ := (hns.attempted_iff.mp hatt).2.2 n hn _ ha
  have hagain := h.declaration?_again (t := ⟨_, .ok new⟩) hs.1 hs.2 ha options'
  rw [hb, Option.some.injEq] at hagain
  obtain ⟨new', hnew'⟩ := hs.gives_again h.sameHeads options'
  rw [hagain]
  exact ⟨new', ih n hn _ ha hs.1 _ hs.2, hnew'⟩

/-- A class of the module that is accepted in the next run has been accepted. -/
theorem Promotes.succeeds_of_again (h : m.Promotes hosts options out result) {options' : Options}
    {new : Promoted} (hatt : m.Attempted hosts options out t.cls)
    (ht : m.Gives hosts options out t.cls t.result)
    (hnew : out.Gives hosts options' out (t.again options').cls (.ok new)) :
    ∃ new, m.Succeeds hosts options out t.cls new := by
  have hagain := (ht.again options' h.sameHeads).unique hnew
  obtain ⟨d, r⟩ := t
  cases r with
  | ok new => exact ⟨new, hatt, ht⟩
  | error errors => cases hagain

/-- Whatever is attempted in the next run was attempted before. -/
theorem Promotes.exists_attempted (h : m.Promotes hosts options out result) {options' : Options}
    (he : out.Attempted hosts options' out e) :
    ∃ t : Trial, m.Attempted hosts options out t.cls ∧
      m.Gives hosts options out t.cls t.result ∧ e = (t.again options').cls := by
  obtain ⟨ns, hns⟩ := he.chain
  revert he
  apply hns.induction
  intro e ns hns ih he
  obtain ⟨d, hd, hpos⟩ : ∃ d, m.declaration? e.name = some d ∧ d.position = e.position := by
    obtain ⟨c, -, -, -, hd⟩ := h.sameHeads.symm.declaration? he.declaration?
    exact ⟨_, hd, rfl⟩
  have hout : ∀ c, out.classAt? d.position = some c → e = ⟨d.position, c⟩ := by
    intro c hc
    rw [hpos, he.classAt?, Option.some.injEq] at hc
    rw [hpos, ← hc]
  by_cases hs : ∃ new, m.Succeeds hosts options out d new
  · -- an accepted class
    obtain ⟨new, hs⟩ := hs
    refine ⟨⟨d, .ok new⟩, hs.1, hs.2, hout new.decl ?_⟩
    exact h.classAt?_again (t := ⟨d, .ok new⟩) hs.1 hs.2 options'
  · -- a class that is as it was written
    obtain rfl : e = d := hout d.decl (h.classAt?_of_not_succeeds (mem_of_declaration? hd) hs)
    have hchain : m.Chain hosts e.superclass ns := h.sameHeads.symm.chain hns
    obtain ⟨-, hplaced, hacc⟩ := hns.attempted_iff.mp he
    have habove : ∀ n ∈ ns, ∀ a, m.declaration? n = some a →
        ∃ new, m.Succeeds hosts options out a new := by
      intro n hn a ha
      obtain ⟨x, -, -, -, hb⟩ := h.sameHeads.declaration? ha
      obtain ⟨new, hnew⟩ := hacc n hn _ hb
      obtain ⟨t, hatt, hgives, heq⟩ := ih n hn _ hb hnew.1
      obtain ⟨hposa, -, -⟩ := hgives.again_head options'
      obtain rfl : t.cls = a := by
        refine Declared.eq_of_position (mem_of_declaration? hatt.declaration?)
          (mem_of_declaration? ha) ?_
        rw [← hposa, ← heq]
      rw [heq] at hnew
      exact h.succeeds_of_again hatt hgives hnew.2
    have hatt := hchain.attempted_iff.mpr ⟨hd, hplaced, habove⟩
    obtain ⟨r, hr⟩ := hchain.exists_gives options out
    cases r with
    | ok new => exact absurd ⟨new, hatt, hr⟩ hs
    | error errors => exact ⟨⟨e, .error errors⟩, hatt, hr, rfl⟩

/-! ## §3 The next run -/

/-- The same modifiers are misplaced: accepted classes have none, before and after. -/
theorem Promotes.misplaced_eq (h : m.Promotes hosts options out result) :
    out.misplaced = m.misplaced := by
  have hmap : out.statements.map Stmt.misplacedTop = m.statements.map Stmt.misplacedTop := by
    refine List.ext_getElem? fun i => ?_
    rw [List.getElem?_map, List.getElem?_map]
    by_cases hex : ∃ d new, m.Succeeds hosts options out d new ∧ d.position = i
    · obtain ⟨d, new, hs, rfl⟩ := hex
      obtain ⟨index, hindex⟩ := hs.2.promote
      have hplaced := hs.1.placed
      rw [h.accepted d new hs, statement_of_classAt? hs.1.classAt?, Option.map_some,
        Option.map_some, hplaced, ClassDecl.misplacedTop_promote hindex hplaced]
    · rw [h.kept i fun d new hs hi => hex ⟨d, new, hs, hi⟩]
  rw [misplaced, misplaced, List.flatMap_def, List.flatMap_def, hmap]

theorem Before.again {t u : Trial} (hheads : m.SameHeads out)
    (ht : m.Gives hosts options out t.cls t.result)
    (hu : m.Gives hosts options out u.cls u.result) (h : m.Before hosts t.cls u.cls)
    (options' : Options) :
    out.Before hosts (t.again options').cls (u.again options').cls := by
  obtain ⟨ns, ks, hns, hks, hlt⟩ := h
  obtain ⟨htpos, -, htsup⟩ := ht.again_head options'
  obtain ⟨hupos, -, husup⟩ := hu.again_head options'
  refine ⟨ns, ks, ?_, ?_, ?_⟩
  · rw [htsup]
    exact hheads.chain hns
  · rw [husup]
    exact hheads.chain hks
  · rw [htpos, hupos]
    exact hlt

/-- The attempts of the next run are those of this run, made again. -/
theorem Promotes.isSchedule_again (h : m.Promotes hosts options out result) {trials : List Trial}
    (hsched : m.IsSchedule hosts options out trials) (options' : Options) :
    out.IsSchedule hosts options' out (trials.map (Trial.again options')) where
  mem_iff := by
    intro u
    rw [List.mem_map]
    constructor
    · rintro ⟨t, ht, rfl⟩
      obtain ⟨hatt, hgives⟩ := (hsched.mem_iff t).mp ht
      exact ⟨h.attempted_again hatt options' _ hgives, hgives.again options' h.sameHeads⟩
    · rintro ⟨hatt, hgives⟩
      obtain ⟨t, htatt, htgives, hcls⟩ := h.exists_attempted hatt
      refine ⟨t, (hsched.mem_iff t).mpr ⟨htatt, htgives⟩, ?_⟩
      -- the attempt has one result
      have hagain := htgives.again options' h.sameHeads
      rw [← hcls] at hagain
      obtain ⟨d, r⟩ := u
      obtain rfl : d = _ := hcls
      obtain rfl := hagain.unique hgives
      rfl
  sorted := by
    rw [List.pairwise_map]
    refine hsched.sorted.imp_of_mem fun ht hu hlt => ?_
    exact hlt.again h.sameHeads ((hsched.mem_iff _).mp ht).2 ((hsched.mem_iff _).mp hu).2 options'

/-- The outcome of a run is also its own outcome, with the same errors and without new fields. -/
theorem Promotes.again (h : m.Promotes hosts options out result) (options' : Options) :
    out.Promotes hosts options' out (result.map Report.cleared) where
  span := rfl
  accepted := by
    intro e new hs
    obtain ⟨t, hatt, hgives, rfl⟩ := h.exists_attempted hs.1
    rw [statement_of_classAt? hs.1.classAt?]
    have hagain := (hgives.again options' h.sameHeads).unique hs.2
    obtain ⟨d, r⟩ := t
    cases r with
    | error errors => cases hagain
    | ok old =>
      -- the class is settled
      obtain ⟨index, hindex⟩ := hgives.promote
      obtain ⟨new', hdecl, -, hnew'⟩ :=
        ClassDecl.promote_of_settled (ClassDecl.settled_of_promote hindex) options'
      obtain rfl : new' = new := Except.ok.inj ((hnew' {}).symm.trans hagain)
      rw [hdecl]
      rfl
  kept := fun _ _ => rfl
  result := by
    obtain ⟨trials, hsched, rfl⟩ := h.result
    refine ⟨_, h.isSchedule_again hsched options', ?_⟩
    have herrors : (trials.map (Trial.again options')).flatMap Trial.errors =
        trials.flatMap Trial.errors := by
      rw [List.flatMap_map]
      exact List.flatMap_congr fun t ht => ((hsched.mem_iff t).mp ht).2.errors_again options'
    have hreports : (trials.map (Trial.again options')).filterMap Trial.report? =
        (trials.filterMap Trial.report?).map ClassReport.cleared := by
      rw [List.filterMap_map, List.map_filterMap]
      exact List.filterMap_congr fun t ht => ((hsched.mem_iff t).mp ht).2.report?_again options'
    rw [allErrors, allErrors, h.misplaced_eq, h.sameHeads.repeatErrors_eq,
      h.sameHeads.loopErrors_eq, herrors, hreports, verdict_cleared]

/-- Promoting a module again changes nothing, with whatever options. There are the same errors in
the same order, or else a report on the same classes without fields. -/
theorem promote_module_promote (m : Module) (hosts : List HostClass) (options options' : Options) :
    ((m.promote (ClassTable.ofHost hosts) options).module.promote (ClassTable.ofHost hosts)
        options').module = (m.promote (ClassTable.ofHost hosts) options).module ∧
      ((m.promote (ClassTable.ofHost hosts) options).module.promote (ClassTable.ofHost hosts)
        options').result =
          (m.promote (ClassTable.ofHost hosts) options).result.map Report.cleared := by
  apply (promotes_promote _ hosts options').unique
  exact (promotes_promote m hosts options).again options'

end Module

end FieldPromotion
