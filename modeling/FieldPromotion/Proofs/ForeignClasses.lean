import FieldPromotion.Proofs.HostView
import FieldPromotion.Proofs.Run
import FieldPromotion.Tree.Build
import Mathlib

/-!
# Classes of another module

A table that is handed to a run may hold classes that were added to it with another module. They keep
the positions they have there, and the run takes these for positions in the module at hand. This does
no harm as long as there is no class at such a position and no such class is on a loop or below one:
then the run only looks the classes up, as if a host had registered them.
-/

namespace FieldPromotion

/-- The names of the classes that an operation registers. -/
def TableOp.registered : TableOp → List String
  | .external c => [c.name]
  | .module m => m.classes.map (·.name.name)
  | .resolve => []
  | .addField _ _ => []

/-- The same module and the same result; what happened on the way may differ. -/
def Outcome.Same (o o' : Outcome) : Prop :=
  o.module = o'.module ∧ o.result = o'.result

namespace ClassTable

variable {t : ClassTable} {m : Module} {id a b : ClassId} {i : Nat}

/-! ## §1 Tables in use -/

/-- A table in use is tidy when no class name has been registered twice. -/
theorem tidy_ofOps {ops : List TableOp} (h : (ops.flatMap TableOp.registered).Nodup) :
    (ofOps ops).Tidy := by
  -- the last step comes to a table that is tidy already
  induction ops using List.reverseRecOn with
  | nil => exact ⟨rfl, rfl⟩
  | append_singleton ops op ih =>
    rw [List.flatMap_append, List.flatMap_singleton] at h
    have ht := ih h.of_append_left
    rw [ofOps, List.foldl_append]
    show ((ofOps ops).apply op).Tidy
    cases op with
    | external c => exact ht.register _
    | module m =>
      apply ht.registerModule
      -- only a module can bring repeats, and its names are among those that are registered
      have hnames : (entriesOf m).map ClassEntry.name = m.classes.map (·.name.name) := by
        rw [Module.entriesOf_eq, ← m.map_decl_declared, List.map_map, List.map_map]
        rfl
      rw [hnames]
      exact h.of_append_right
    | resolve => exact ht.resolveParents
    | addField id field => exact ht.addField id field

/-- `t.KeptApart m`: no class of `t` that has a position from elsewhere can be taken for a class of
`m`. There is no class at its position, and its superclass chain ends. -/
structure KeptApart (t : ClassTable) (m : Module) : Prop where
  vacant : ∀ e ∈ t.classes, ∀ i, e.statement = some i → m.classAt? i = none
  rooted : ∀ e ∈ t.classes, e.statement.isSome → ∃ ns, m.Chain t.hostClasses e.superclass ns

/-! ## §2 The table of the run -/

/-- Taking up a module keeps the positions of the classes that were there before. -/
theorem statement_registerModule (h : id < t.size) :
    ((t.registerModule m).get? id).bind ClassEntry.statement =
      (t.get? id).bind ClassEntry.statement := by
  rw [registerModule, get?_resolveParents, get?_takeUp, if_pos h]
  cases t.get? id <;> rfl

/-- Without the statements of the classes that were there before, the table is the one of the module
below a host. -/
theorem disown_registerModule (ht : t.Tidy) (m : Module) :
    (t.registerModule m).disown t.size = m.table t.hostClasses :=
  (registerModule_ofHost_hostClasses ht m).symm

/-- All parents are classes of the table. -/
theorem Tidy.closed_registerModule (ht : t.Tidy) (m : Module) : (t.registerModule m).Closed := by
  rw [← closed_disown (n := t.size), disown_registerModule ht]
  exact Module.table_closed

/-- The classes that were there before count as host classes. -/
theorem roster_of_get? {e : ClassEntry} (he : t.get? id = some e) :
    (m.roster t.hostClasses)[id]? = some (.host e.toHost) := by
  have hlt : id < t.hostClasses.length := by
    rw [hostClasses, List.length_map]
    exact (List.getElem?_eq_some_iff.mp he).1
  rw [Module.roster_of_lt hlt, hostClasses, List.getElem?_map]
  change ((t.get? id).map _).map _ = _
  rw [he]
  rfl

/-- The classes that come with the module are found at their positions. -/
theorem classAt?_of_statement (ht : t.Tidy) (hid : t.size ≤ id)
    (hi : ((t.registerModule m).get? id).bind ClassEntry.statement = some i) :
    (m.classAt? i).isSome := by
  have hown : ((m.table t.hostClasses).get? id).bind ClassEntry.statement = some i := by
    rw [← disown_registerModule ht, statement_disown, if_neg (Nat.not_lt.mpr hid), hi]
  obtain ⟨d, hd, rfl⟩ := Module.own_of_statement hown
  rw [Module.mem_declared_iff.mp (Module.mem_declared_of_roster hd)]
  rfl

/-- Repeats are those within the module. -/
theorem mem_duplicates_registerModule (ht : t.Tidy) {d : ClassId × ClassId}
    (hd : d ∈ (t.registerModule m).duplicates) : t.size ≤ d.1 ∧ t.size ≤ d.2 := by
  change d ∈ (t.takeUp m).duplicates at hd
  rw [takeUp, (intake_spec _ _).2.2.2, ht.duplicates, List.nil_append, repeatPairs,
    List.mem_filterMap] at hd
  obtain ⟨x, -, hx⟩ := hd
  obtain ⟨j, -, hj⟩ := Option.bind_eq_some_iff.mp hx
  split at hj
  · obtain rfl := Option.some.inj hj
    exact ⟨Nat.le_add_right _ _, Nat.le_add_right _ _⟩
  · cases hj

section KeptApart

variable (ht : t.Tidy) (h : t.KeptApart m)
include ht h

/-- The classes that were there before and have statements have no loops above them. -/
theorem KeptApart.exists_standing (hid : id < t.size) (hmod : (t.registerModule m).InModule id) :
    ∃ k, (t.registerModule m).standing id = .rooted k := by
  obtain ⟨i, hi⟩ := Option.isSome_iff_exists.mp hmod
  rw [statement_registerModule hid] at hi
  obtain ⟨e, he, hei⟩ := Option.bind_eq_some_iff.mp hi
  obtain ⟨ns, hns⟩ := h.rooted e (List.mem_of_getElem? he) (by rw [hei]; rfl)
  refine ⟨ns.length, ?_⟩
  rw [← standing_disown (n := t.size), disown_registerModule ht]
  exact (Module.standing_rooted_iff (roster_of_get? he)).mpr ⟨ns, hns, rfl⟩

/-- So none of them is listed as a class on a loop or below one. -/
theorem KeptApart.moduleClasses_disown {p : Standing → Bool} (hp : ∀ k, p (.rooted k) = false) :
    ((t.registerModule m).disown t.size).moduleClasses p = (t.registerModule m).moduleClasses p ∧
      ∀ id ∈ (t.registerModule m).moduleClasses p, t.size ≤ id := by
  have hle : ∀ id ∈ (t.registerModule m).moduleClasses p, t.size ≤ id := by
    intro id hid
    obtain ⟨hmod, hstanding⟩ := mem_moduleClasses_iff.mp hid
    by_contra hlt
    obtain ⟨k, hk⟩ := h.exists_standing ht (Nat.lt_of_not_le hlt) hmod
    rw [hk, hp] at hstanding
    cases hstanding
  refine ⟨?_, hle⟩
  rw [ClassTable.moduleClasses_disown, List.filter_eq_self]
  exact fun id hid => decide_eq_true (hle id hid)

/-- The same loops are reported. -/
theorem KeptApart.cyclicErrors_disown :
    ((t.registerModule m).disown t.size).cyclicErrors
        ((t.registerModule m).disown t.size).inheritanceOrder =
      (t.registerModule m).cyclicErrors (t.registerModule m).inheritanceOrder := by
  obtain ⟨hcycles, hcyclesLe⟩ := h.moduleClasses_disown ht (p := (· == .cyclic)) fun _ => rfl
  obtain ⟨hblocked, hblockedLe⟩ := h.moduleClasses_disown ht (p := (· == .blocked)) fun _ => rfl
  have hclosed := ht.closed_registerModule m
  unfold cyclicErrors isCovered
  simp only [cycles_eq hclosed, blocked_eq hclosed, cycles_eq (closed_disown.mpr hclosed),
    blocked_eq (closed_disown.mpr hclosed), hcycles, hblocked, ancestors_disown]
  refine List.map_congr_left fun id hid => ?_
  -- a reported class is one of the module, which keeps its position
  have hle : t.size ≤ id := by
    rcases List.mem_append.mp hid with hid | hid
    · exact hcyclesLe id hid
    · exact hblockedLe id (List.mem_filter.mp hid).1
  rw [cyclicError, cyclicError, nameOf_disown, spanOf_disown hle]

omit h in
/-- The same repeats are reported. -/
theorem Tidy.duplicateErrors_disown :
    ((t.registerModule m).disown t.size).duplicateErrors =
      (t.registerModule m).duplicateErrors := by
  refine List.map_congr_left fun d hd => ?_
  obtain ⟨hfirst, hrepeat⟩ := mem_duplicates_registerModule ht hd
  rw [nameOf_disown, spanOf_disown hfirst, spanOf_disown hrepeat]

end KeptApart

/-- An ancestor of an ancestor is an ancestor. -/
theorem mem_ancestors_trans (ht : t.Closed) (ha : a ∈ t.ancestors id) (hb : b ∈ t.ancestors a) :
    b ∈ t.ancestors id := by
  have hlt : ∀ {x y : ClassId}, y ∈ t.ancestors x → x < t.size := by
    intro x y hy
    by_contra hx
    have hnone : t.parentOf x = none := by
      rw [parentOf, get?, List.getElem?_eq_none (Nat.le_of_not_lt hx), Option.bind_none]
    have hnil : t.chain t.size none = [] := by cases t.size <;> rfl
    rw [ancestors, hnone, hnil] at hy
    cases hy
  have hid := (mem_ancestors_iff_inherits ht (hlt ha)).mp ha
  exact (mem_ancestors_iff_inherits ht (hlt ha)).mpr
    (hid.trans ((mem_ancestors_iff_inherits ht (hlt hb)).mp hb))

/-- Fields have nothing to do with parents. -/
theorem closed_of_frame {u : ClassTable} (h : u.frame = t.frame) (ht : t.Closed) : u.Closed := by
  have hsize : u.size = t.size := by
    simpa [frame, size] using congrArg List.length h
  intro id p hp
  rw [parentOf_of_frame h] at hp
  rw [hsize]
  exact ht id p hp

end ClassTable

/-! ## §3 Two runs side by side -/

/-- `p.SeesAlike n m q`: both runs have come to the same results for the module `m`. The one of `p`
knows positions for the first `n` classes, the one of `q` does not; so `p` may have marked some of them
as failed, but only below classes of the module that have failed in both runs. -/
structure Progress.SeesAlike (p : Progress) (n : Nat) (m : Module) (q : Progress) : Prop where
  table : q.table = p.table.disown n
  closed : p.table.Closed
  statements : q.statements = p.statements
  reports : q.reports = p.reports
  errors : q.errors = p.errors
  own : ∀ id ∈ q.failed, n ≤ id
  failed : ∀ id, n ≤ id → (id ∈ q.failed ↔ id ∈ p.failed)
  foreign : ∀ id ∈ p.failed, id < n → ∃ a ∈ p.table.ancestors id, n ≤ a ∧ a ∈ p.failed
  /-- There are classes where the module has them. -/
  classes : ∀ i, ((p.statements[i]?).bind Stmt.class?).isSome = (m.classAt? i).isSome

namespace Progress.SeesAlike

variable {p q : Progress} {n : Nat} {m : Module} {id a : ClassId} {options : Options}
  {ids : List ClassId}

/-- Both runs see a failed class above a class, or neither does. -/
theorem failed_above (h : p.SeesAlike n m q) (id : ClassId) :
    (∃ a ∈ q.table.ancestors id, a ∈ q.failed) ↔ ∃ a ∈ p.table.ancestors id, a ∈ p.failed := by
  rw [h.table, ClassTable.ancestors_disown]
  constructor
  · rintro ⟨a, ha, hfailed⟩
    exact ⟨a, ha, (h.failed a (h.own a hfailed)).mp hfailed⟩
  · rintro ⟨a, ha, hfailed⟩
    by_cases hn : n ≤ a
    · exact ⟨a, ha, (h.failed a hn).mpr hfailed⟩
    · -- above a foreign class that has failed there is a class of the module that has failed
      obtain ⟨b, hb, hnb, hbfailed⟩ := h.foreign a hfailed (Nat.lt_of_not_le hn)
      exact ⟨b, ClassTable.mem_ancestors_trans h.closed ha hb, (h.failed b hnb).mpr hbfailed⟩

/-- A class of the module is tried in both runs, with the same result, or in neither. -/
theorem trial?_eq (h : p.SeesAlike n m q) (hid : n ≤ id) :
    q.trial? options m.checkContexts.failed id = p.trial? options m.checkContexts.failed id := by
  refine Option.ext fun t => ?_
  have habove : (∀ a ∈ q.table.ancestors id, a ∉ q.failed) ↔
      ∀ a ∈ p.table.ancestors id, a ∉ p.failed := by
    have := not_congr (h.failed_above id)
    push Not at this
    exact this
  rw [Progress.trial?_eq_some_iff, Progress.trial?_eq_some_iff, habove, h.statements,
    h.failed id hid, h.table, ClassTable.statement_disown, if_neg (Nat.not_lt.mpr hid),
    ClassTable.fieldIndex_disown]

/-- Marking a foreign class below a class that has failed makes no difference. -/
theorem mark_foreign (h : p.SeesAlike n m q) (hid : id < n) (ha : a ∈ p.table.ancestors id)
    (hfailed : a ∈ p.failed) (events : List Event) :
    ({ p with failed := id :: p.failed, events := events } : Progress).SeesAlike n m q where
  table := h.table
  closed := h.closed
  statements := h.statements
  reports := h.reports
  errors := h.errors
  own := h.own
  failed := by
    intro b hb
    have hne : b ≠ id := by
      rintro rfl
      exact Nat.not_lt.mpr hb hid
    rw [h.failed b hb]
    simp [hne]
  foreign := by
    intro b hb hlt
    -- the class above that has failed is one of the module, or has one of the module above it
    rcases List.mem_cons.mp hb with rfl | hb
    · by_cases hn : n ≤ a
      · exact ⟨a, ha, hn, List.mem_cons_of_mem _ hfailed⟩
      · obtain ⟨c, hc, hnc, hcfailed⟩ := h.foreign a hfailed (Nat.lt_of_not_le hn)
        exact ⟨c, ClassTable.mem_ancestors_trans h.closed ha hc, hnc,
          List.mem_cons_of_mem _ hcfailed⟩
    · obtain ⟨c, hc, hnc, hcfailed⟩ := h.foreign b hb hlt
      exact ⟨c, hc, hnc, List.mem_cons_of_mem _ hcfailed⟩
  classes := h.classes

/-- A foreign class at whose position there is no class is passed over. -/
theorem step_foreign (h : p.SeesAlike n m q) (hid : id < n)
    (hvacant : ∀ i, (p.table.get? id).bind ClassEntry.statement = some i → m.classAt? i = none) :
    (p.step options m.checkContexts.failed id).SeesAlike n m q := by
  unfold Progress.step
  cases hi : (p.table.get? id).bind ClassEntry.statement with
  | none => exact h
  | some i =>
    have hnone := hvacant i hi
    -- there is no class at the position, so no check can have failed there
    have hspoilt : m.checkContexts.failed.contains i = false := by
      rw [Bool.eq_false_iff, Ne, List.contains_iff_mem, Module.mem_failed_checkContexts]
      rintro ⟨c, hc, -⟩
      rw [hnone] at hc
      cases hc
    -- and there is none to be promoted
    have hclass : (p.statements[i]?).bind Stmt.class? = none := by
      rw [← Option.not_isSome_iff_eq_none, h.classes i, hnone]
      decide
    simp only [Progress.visit, hspoilt, hclass, Bool.false_eq_true, if_false]
    split
    · exact h
    · split
      · rename_i a ha
        apply h.mark_foreign hid (List.mem_of_find?_eq_some ha)
        simpa using List.find?_some ha
      · exact h

/-- Accepting a class of the module in both runs. -/
theorem accept (h : p.SeesAlike n m q) {i : Nat} {c : ClassDecl}
    (hc : (p.statements[i]?).bind Stmt.class? = some c) (new : Promoted) :
    ((p.put i new.decl).accept id new).SeesAlike n m ((q.put i new.decl).accept id new) where
  table := by
    show new.fields.foldl _ q.table = ClassTable.disown (new.fields.foldl _ p.table) n
    rw [h.table, ClassTable.addFields_disown]
  closed := ClassTable.closed_of_frame (ClassTable.frame_addFields _ _ _) h.closed
  statements := by
    show q.statements.set i _ = p.statements.set i _
    rw [h.statements]
  reports := by
    show q.reports ++ _ = p.reports ++ _
    rw [h.reports]
  errors := h.errors
  own := h.own
  failed := h.failed
  foreign := by
    intro a ha hlt
    obtain ⟨b, hb, hnb, hbfailed⟩ := h.foreign a ha hlt
    refine ⟨b, ?_, hnb, hbfailed⟩
    show b ∈ ClassTable.ancestors (new.fields.foldl _ p.table) a
    rw [ClassTable.ancestors_of_frame (ClassTable.frame_addFields _ _ _)]
    exact hb
  classes := by
    intro j
    show (((p.statements.set i (.classDecl new.decl))[j]?).bind Stmt.class?).isSome = _
    rw [← h.classes j, List.getElem?_set]
    -- the statement that is replaced was a class and stays one
    by_cases hij : i = j
    · subst hij
      obtain ⟨s, hs, -⟩ := Option.bind_eq_some_iff.mp hc
      have hlt : i < p.statements.length := (List.getElem?_eq_some_iff.mp hs).1
      rw [hc]
      simp [hlt, Stmt.class?]
    · rw [if_neg hij]

/-- Marking a class of the module in both runs, with the same errors. -/
theorem mark_own (h : p.SeesAlike n m q) (hid : n ≤ id) {failed failed' : List ClassId}
    (hp : ∀ a, a ≠ id → (a ∈ failed ↔ a ∈ p.failed)) (hpid : id ∈ failed)
    (hq : ∀ a, a ≠ id → (a ∈ failed' ↔ a ∈ q.failed)) (hqid : id ∈ failed')
    (errors : List Error) (events events' : List Event) :
    ({ p with failed := failed, errors := p.errors ++ errors, events := events } :
        Progress).SeesAlike n m
      { q with failed := failed', errors := q.errors ++ errors, events := events' } where
  table := h.table
  closed := h.closed
  statements := h.statements
  reports := h.reports
  errors := by
    show q.errors ++ errors = p.errors ++ errors
    rw [h.errors]
  own := by
    intro a ha
    by_cases haid : a = id
    · exact haid ▸ hid
    · exact h.own a ((hq a haid).mp ha)
  failed := by
    intro a ha
    by_cases haid : a = id
    · subst haid
      exact ⟨fun _ => hpid, fun _ => hqid⟩
    · exact (hq a haid).trans ((h.failed a ha).trans (hp a haid).symm)
  foreign := by
    intro a ha hlt
    -- what is marked is a class of the module, so none of the foreign ones is
    have hne : a ≠ id := by
      rintro rfl
      exact Nat.not_lt.mpr hid hlt
    obtain ⟨b, hb, hnb, hbfailed⟩ := h.foreign a ((hp a hne).mp ha) hlt
    refine ⟨b, hb, hnb, ?_⟩
    by_cases hbid : b = id
    · exact hbid ▸ hpid
    · exact (hp b hbid).mpr hbfailed
  classes := h.classes

/-- A class of the module is treated alike by both runs. -/
theorem step_own (h : p.SeesAlike n m q) (hid : n ≤ id) {i : Nat}
    (hi : (p.table.get? id).bind ClassEntry.statement = some i) (hclass : (m.classAt? i).isSome) :
    (p.step options m.checkContexts.failed id).SeesAlike n m
      (q.step options m.checkContexts.failed id) := by
  have hmark : ∀ (failed : List ClassId) a, a ≠ id → (a ∈ id :: failed ↔ a ∈ failed) := by
    intro failed a ha
    simp [ha]
  -- the attempt is the same on both sides, and so is what comes of it
  cases ht : p.trial? options m.checkContexts.failed id with
  | some t =>
    rw [Progress.step_of_trial ht, Progress.step_of_trial ((h.trial?_eq hid).trans ht)]
    cases t.result with
    | ok new => exact h.accept (Progress.trial?_eq_some_iff.mp ht).2.1 new
    | error errors =>
      exact h.mark_own hid (hmark p.failed) List.mem_cons_self (hmark q.failed) List.mem_cons_self
        errors _ _
  | none =>
    obtain ⟨failed, events, hstep, hp, hpid⟩ := Progress.step_of_no_trial ht
    obtain ⟨failed', events', hstep', hq, hqid⟩ :=
      Progress.step_of_no_trial ((h.trial?_eq hid).trans ht)
    -- there is a class at the position, so it can only have been passed over as failed
    obtain ⟨c, hc⟩ : ∃ c, (p.statements[i]?).bind Stmt.class? = some c := by
      rw [← Option.isSome_iff_exists, h.classes i, hclass]
    have hi' : (q.table.get? id).bind ClassEntry.statement = some i := by
      rw [h.table, ClassTable.statement_disown, if_neg (Nat.not_lt.mpr hid), hi]
    rw [hstep, hstep']
    have hmarked := h.mark_own hid hp (hpid i c hi hc) hq (hqid i c hi' (h.statements ▸ hc)) []
      events events'
    simpa only [List.append_nil] using hmarked

/-- A run that looks at classes of the module and at foreign classes, and a run that looks at the same
classes of the module only. -/
theorem run (h : p.SeesAlike n m q)
    (hforeign : ∀ id ∈ ids, id < n → ∀ i,
      (p.table.get? id).bind ClassEntry.statement = some i → m.classAt? i = none)
    (hown : ∀ id ∈ ids, n ≤ id → ∃ i,
      (p.table.get? id).bind ClassEntry.statement = some i ∧ (m.classAt? i).isSome) :
    (p.run options m.checkContexts.failed ids).SeesAlike n m
      (q.run options m.checkContexts.failed (ids.filter (n ≤ ·))) := by
  induction ids generalizing p q with
  | nil => exact h
  | cons id ids ih =>
    -- a step does not change positions
    have hkeep : ∀ a, ((p.step options m.checkContexts.failed id).table.get? a).bind ClassEntry.statement =
        (p.table.get? a).bind ClassEntry.statement :=
      ClassTable.statement_of_frame (Progress.frame_step options m.checkContexts.failed p id)
    have hforeign' : ∀ a ∈ ids, a < n → ∀ i, ((p.step options m.checkContexts.failed id).table.get? a).bind
        ClassEntry.statement = some i → m.classAt? i = none := by
      intro a ha
      rw [hkeep]
      exact hforeign a (List.mem_cons_of_mem id ha)
    have hown' : ∀ a ∈ ids, n ≤ a → ∃ i, ((p.step options m.checkContexts.failed id).table.get? a).bind
        ClassEntry.statement = some i ∧ (m.classAt? i).isSome := by
      intro a ha
      rw [hkeep]
      exact hown a (List.mem_cons_of_mem id ha)
    rw [Progress.run_cons]
    by_cases hid : n ≤ id
    · obtain ⟨i, hi, hclass⟩ := hown id List.mem_cons_self hid
      rw [List.filter_cons_of_pos (by simpa using hid), Progress.run_cons]
      exact ih (h.step_own hid hi hclass) hforeign' hown'
    · rw [List.filter_cons_of_neg (by simpa using hid)]
      exact ih (h.step_foreign (Nat.lt_of_not_le hid)
        (hforeign id List.mem_cons_self (Nat.lt_of_not_le hid))) hforeign' hown'

end Progress.SeesAlike

namespace ClassTable

variable {t : ClassTable} {m : Module}

/-- Both runs start alike. -/
theorem KeptApart.seesAlike_start (ht : t.Tidy) (h : t.KeptApart m) :
    (m.start t).SeesAlike t.size m (m.start (ofHost t.hostClasses)) := by
  have htable : (ofHost t.hostClasses).registerModule m = (t.registerModule m).disown t.size :=
    registerModule_ofHost_hostClasses ht m
  obtain ⟨hcycles, hcyclesLe⟩ := h.moduleClasses_disown ht (p := (· == .cyclic)) fun _ => rfl
  obtain ⟨hblocked, hblockedLe⟩ := h.moduleClasses_disown ht (p := (· == .blocked)) fun _ => rfl
  have hclosed := ht.closed_registerModule m
  -- the classes that start as failed are repeats and those on or below a loop, all of them in the
  -- module
  have hfailed : (m.start (ofHost t.hostClasses)).failed = (m.start t).failed := by
    simp only [Module.start, htable, cycles_eq hclosed, blocked_eq hclosed,
      cycles_eq (closed_disown.mpr hclosed), blocked_eq (closed_disown.mpr hclosed), hcycles,
      hblocked]
    rfl
  have hle : ∀ id ∈ (m.start t).failed, t.size ≤ id := by
    intro id hid
    simp only [Module.start, cycles_eq hclosed, blocked_eq hclosed, List.mem_append,
      List.mem_map] at hid
    rcases hid with (⟨d, hd, rfl⟩ | hid) | hid
    · exact (mem_duplicates_registerModule ht hd).2
    · exact hcyclesLe id hid
    · exact hblockedLe id hid
  exact {
    table := htable
    closed := hclosed
    statements := rfl
    reports := rfl
    errors := by
      simp only [Module.start, htable, ht.duplicateErrors_disown, h.cyclicErrors_disown ht]
    own := fun id hid => hle id (hfailed ▸ hid)
    failed := fun id _ => by rw [hfailed]
    foreign := fun id hid hlt => absurd hlt (Nat.not_lt.mpr (hle id hid))
    classes := fun _ => rfl }

/-- When the classes of a tidy table are kept apart from a module, they are only looked up. -/
theorem KeptApart.same (ht : t.Tidy) (h : t.KeptApart m) (options : Options) :
    (m.promote t options).Same (m.promote (ofHost t.hostClasses) options) := by
  -- the second run leaves out the foreign classes, and looks at the others in the same order
  have horder : ((ofHost t.hostClasses).registerModule m).inheritanceOrder.order =
      (t.registerModule m).inheritanceOrder.order.filter (t.size ≤ ·) := by
    rw [registerModule_ofHost_hostClasses ht]
    exact order_disown (ht.closed_registerModule m)
  have hrun : (m.finish t options).SeesAlike t.size m (m.finish (ofHost t.hostClasses) options) := by
    unfold Module.finish
    rw [horder]
    apply (h.seesAlike_start ht).run
    · intro id _ hlt i hi
      change ((t.registerModule m).get? id).bind ClassEntry.statement = some i at hi
      rw [statement_registerModule hlt] at hi
      obtain ⟨e, he, hei⟩ := Option.bind_eq_some_iff.mp hi
      exact h.vacant e (List.mem_of_getElem? he) i hei
    · intro id hid hle
      have hmod := ((mem_order_iff_end (ht.closed_registerModule m)).mp hid).1
      obtain ⟨i, hi⟩ := Option.isSome_iff_exists.mp hmod
      exact ⟨i, hi, classAt?_of_statement ht hle hi⟩
  constructor
  · simp only [Module.promote, hrun.statements]
  · simp only [Module.promote, hrun.errors, hrun.reports]

end ClassTable

end FieldPromotion
