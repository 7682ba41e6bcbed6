import FieldPromotion.Proofs.ForeignClasses

/-!
# Positions taken for others

Every class that has a position from elsewhere can be taken for a class of some module: put an empty
class there. Nothing is wrong with such a module, but the run then looks at its class twice. So the
classes of a table are only looked up, whatever the module, exactly when none of them has a position.
-/

namespace FieldPromotion

/-- The positions of the classes that an operation adds. -/
def TableOp.positions : TableOp → List (Option Nat)
  | .external _ => [none]
  | .module m => m.declared.map fun d => some d.position
  | .resolve => []
  | .addField _ _ => []

/-- A step brings no positions along if it registers no class of a module. -/
theorem TableOp.positions_eq_none_iff {op : TableOp} :
    (∀ i ∈ op.positions, i = none) ↔ ∀ m, op = .module m → m.classes = [] := by
  cases op with
  | module m =>
    simp [positions, ← m.map_decl_declared, List.eq_nil_iff_forall_not_mem]
  | _ => simp [positions]

/-! ## §1 A module with one class -/

namespace Module

variable {i j : Nat} {name : String} {hosts : List HostClass} {options : Options} {c : ClassDecl}
  {d : Declared}

/-- A module with a single class, which is empty and stands at position `i`. -/
def lone (i : Nat) (name : String) : Module where
  statements := List.replicate i (Stmt.empty {}) ++ [.classDecl (.named name)]

/-- The class of that module. -/
def loneClass (i : Nat) (name : String) : Declared :=
  ⟨i, .named name⟩

/-- The class comes after empty statements, at the position that was chosen. -/
theorem getElem?_lone : (lone i name).statements[j]? =
    if j < i then some (.empty {}) else if j = i then some (.classDecl (.named name)) else none := by
  show (List.replicate i (Stmt.empty {}) ++ [.classDecl (.named name)])[j]? = _
  rw [List.getElem?_append, List.length_replicate]
  split
  · simp [*]
  · rename_i hlt
    by_cases hj : j = i
    · simp [hj]
    · rw [if_neg hj, List.getElem?_eq_none]
      simp only [List.length_singleton]
      omega

theorem classAt?_lone : (lone i name).classAt? j = some c ↔ j = i ∧ c = .named name := by
  rw [classAt?, getElem?_lone]
  by_cases hlt : j < i
  · simp [hlt, Stmt.class?, Nat.ne_of_lt hlt]
  · by_cases hj : j = i
    · simp [hj, Stmt.class?, eq_comm]
    · simp [hlt, hj]

/-- The module declares this class and no other. -/
theorem mem_declared_lone : d ∈ (lone i name).declared ↔ d = loneClass i name := by
  rw [mem_declared_iff, classAt?_lone, loneClass]
  cases d
  simp

theorem declared_lone : (lone i name).declared = [loneClass i name] := by
  apply List.Perm.eq_singleton
  rw [List.perm_ext_iff_of_nodup (nodup_declared _) (List.nodup_singleton _)]
  intro d
  rw [mem_declared_lone, List.mem_singleton]

/-- The name of the class refers to it. -/
theorem declaration?_lone : (lone i name).declaration? name = some (loneClass i name) := by
  rw [declaration?, declared_lone]
  simp [loneClass, Declared.name, ClassDecl.named]

theorem misplacedTop_named : (Stmt.classDecl (.named name)).misplacedTop = [] := rfl

theorem misplaced_lone : (lone i name).misplaced = [] := by
  apply List.flatMap_eq_nil_iff.mpr
  intro s hs
  rcases List.mem_append.mp hs with hs | hs
  · rw [List.eq_of_mem_replicate hs]
    rfl
  · rw [List.mem_singleton.mp hs]
    exact misplacedTop_named

theorem checkContexts_failed_lone : (lone i name).checkContexts.failed = [] := by
  apply List.eq_nil_iff_forall_not_mem.mpr
  intro j hj
  obtain ⟨c, hc, hmis⟩ := mem_failed_checkContexts.mp hj
  rw [(classAt?_lone.mp hc).2] at hmis
  exact hmis misplacedTop_named

theorem not_above_lone {n : String} : ¬ (lone i name).Above hosts (loneClass i name).superclass n :=
  nofun

/-- The class has no superclass. -/
theorem chain_lone : (lone i name).Chain hosts (loneClass i name).superclass [] :=
  .root rfl

theorem loopErrors_lone : (lone i name).loopErrors hosts = [] := by
  classical
  have hcycle : ¬ (lone i name).OnCycle hosts (loneClass i name) := fun h => not_above_lone h.2
  have hhost : ¬ (lone i name).LeadsToHostCycle hosts (loneClass i name) := by
    rintro ⟨⟨_, _, h, -⟩, -⟩
    exact not_above_lone h
  simp [loopErrors, declared_lone, hcycle, hhost]

theorem repeatErrors_lone : (lone i name).repeatErrors = [] := by
  have hname : (loneClass i name).name = name := rfl
  simp [repeatErrors, declared_lone, repeatError?, hname, declaration?_lone]

theorem promote_named (index : FieldIndex) :
    (ClassDecl.named name).promote index options = .ok { decl := .named name } := rfl

/-- What becomes of the class. -/
def loneTrial (i : Nat) (name : String) : Trial :=
  ⟨loneClass i name, .ok { decl := .named name }⟩

/-- The class is tried once, and stays as it is. -/
theorem isSchedule_loneTrial :
    (lone i name).IsSchedule hosts options (lone i name) [loneTrial i name] where
  mem_iff := by
    intro t
    rw [List.mem_singleton]
    constructor
    · rintro rfl
      -- the class has nothing to promote, so any index will do
      obtain ⟨index, hindex⟩ := FieldIndex.exists_shows
        ((lone i name).lineage hosts (loneClass i name) [])
      refine ⟨.intro declaration?_lone chain_lone misplacedTop_named nofun nofun, ?_⟩
      exact ⟨[], index, chain_lone, hindex, promote_named index⟩
    · rintro ⟨hattempted, -, index, -, -, hpromote⟩
      obtain ⟨d, r⟩ := t
      obtain rfl := mem_declared_lone.mp (mem_declared_iff.mpr hattempted.classAt?)
      exact congrArg (Trial.mk _) hpromote.symm
  sorted := List.pairwise_singleton _ _

/-- By itself the module is fine, and there is one report. -/
theorem promotes_lone (i : Nat) (name : String) (hosts : List HostClass) (options : Options) :
    (lone i name).Promotes hosts options (lone i name)
      (.ok { classes := [{ cls := name, fields := [] }] }) where
  span := rfl
  accepted := by
    intro d new hnew
    obtain rfl := mem_declared_lone.mp (mem_declared_iff.mpr hnew.1.classAt?)
    obtain ⟨-, index, -, -, hpromote⟩ := hnew.2
    cases hpromote
    exact statement_of_classAt? hnew.1.classAt?
  kept := fun _ _ => rfl
  result := by
    refine ⟨[loneTrial i name], isSchedule_loneTrial, ?_⟩
    rw [allErrors, misplaced_lone, repeatErrors_lone, loopErrors_lone]
    rfl

end Module

/-! ## §2 The class is looked at more than once -/

/-- `p.Awaits i name ids`: the module is the one with a class at position `i`, and the classes `ids` of
the table are taken for it. Nothing stands against an attempt: neither they nor classes above them have
failed. -/
structure Progress.Awaits (p : Progress) (i : Nat) (name : String) (ids : List ClassId) : Prop where
  statements : p.statements = (Module.lone i name).statements
  position : ∀ id ∈ ids, (p.table.get? id).bind ClassEntry.statement = some i
  above : ∀ id ∈ ids, ∀ a ∈ p.table.ancestors id, a ∈ ids
  failed : ∀ id ∈ ids, id ∉ p.failed

namespace Progress.Awaits

variable {p : Progress} {i : Nat} {name : String} {ids : List ClassId} {id : ClassId}
  {options : Options}

/-- Whichever of the entries is looked at, it is the class of the module that is tried. -/
theorem trial?_eq (h : p.Awaits i name ids) (hid : id ∈ ids) :
    p.trial? options [] id = some (Module.loneTrial i name) := by
  refine Progress.trial?_eq_some_iff.mpr ⟨h.position id hid, ?_, h.failed id hid, List.not_mem_nil,
    fun a ha => h.failed a (h.above id hid a ha), rfl⟩
  rw [h.statements]
  exact Module.classAt?_lone.mpr ⟨rfl, rfl⟩

/-- There is no other class to be tried. -/
theorem eq_loneTrial (h : p.Awaits i name ids) {t : Trial} (ht : p.trial? options [] id = some t) :
    t = Module.loneTrial i name := by
  obtain ⟨d, r⟩ := t
  obtain ⟨-, hclass, -, -, -, hpromote⟩ := Progress.trial?_eq_some_iff.mp ht
  rw [h.statements] at hclass
  obtain rfl := Module.mem_declared_lone.mp (Module.mem_declared_iff.mpr hclass)
  exact congrArg (Trial.mk _) hpromote.symm

/-- A step leaves the module as it is. -/
theorem step (h : p.Awaits i name ids) (options : Options) (id : ClassId) :
    (p.step options [] id).Awaits i name ids := by
  have hframe := Progress.frame_step options [] p id
  refine ⟨?_, fun a ha => ?_, fun a ha => ?_, fun a ha => ?_⟩
  · cases ht : p.trial? options [] id with
    | none =>
      obtain ⟨_, _, hstep, -, -⟩ := Progress.step_of_no_trial ht
      rw [hstep]
      exact h.statements
    | some t =>
      rw [Progress.step_of_trial ht, h.eq_loneTrial ht]
      show p.statements.set i (.classDecl (.named name)) = _
      -- the class is replaced by itself
      obtain ⟨hlt, hclass⟩ := List.getElem?_eq_some_iff.mp
        (Module.statement_of_classAt? (Module.classAt?_lone.mpr ⟨rfl, rfl⟩))
      rw [h.statements, ← hclass, List.set_getElem_self]
  · rw [ClassTable.statement_of_frame hframe]
    exact h.position a ha
  · rw [ClassTable.ancestors_of_frame hframe]
    exact h.above a ha
  · by_cases hid : a = id
    · subst hid
      -- an accepted class is not marked
      rw [Progress.step_of_trial (h.trial?_eq ha)]
      exact h.failed a ha
    · rw [Progress.mem_failed_step hid]
      exact h.failed a ha

/-- There is a report for every class that is taken for the one of the module. -/
theorem countP_le (h : p.Awaits i name ids) (options : Options) (order : List ClassId) :
    p.reports.length + order.countP (· ∈ ids) ≤ (p.run options [] order).reports.length := by
  induction order generalizing p with
  | nil => exact Nat.le_refl _
  | cons id order ih =>
    have hrest := ih (h.step options id)
    rw [Progress.run_cons, List.countP_cons]
    rw [Progress.reports_step, List.length_append] at hrest
    by_cases hid : id ∈ ids
    · rw [h.trial?_eq hid] at hrest
      have hone : ((some (Module.loneTrial i name)).toList.filterMap Trial.report?).length = 1 := rfl
      simp only [hid, decide_true, if_true]
      omega
    · simp only [hid, decide_false, Bool.false_eq_true, if_false]
      omega

end Progress.Awaits

namespace ClassTable

variable {t : ClassTable} {m : Module} {id a : ClassId} {i : Nat} {name : String} {e : ClassEntry}
  {w : Meaning} {ns : List String}

/-- The class of the module comes after those of the table. -/
theorem roster_lone (t : ClassTable) (i : Nat) (name : String) :
    ((Module.lone i name).roster t.hostClasses)[t.size]? =
      some (.own (Module.loneClass i name)) := by
  have hsize : t.size = t.hostClasses.length + 0 := (List.length_map _).symm
  rw [hsize, Module.roster_add, Module.declared_lone]
  rfl

/-- The class `id` of the table is scheduled, and is not marked as failed before the run. -/
theorem scheduled_lone (ht : t.Tidy)
    (hw : ((Module.lone i name).roster t.hostClasses)[id]? = some w)
    (hchain : (Module.lone i name).Chain t.hostClasses w.superclass ns)
    (hmod : (t.registerModule (Module.lone i name)).InModule id) :
    id ∈ (t.registerModule (Module.lone i name)).inheritanceOrder.order ∧
      id ∉ ((Module.lone i name).start t).failed := by
  have hdisown := disown_registerModule ht (Module.lone i name)
  have hstanding : (t.registerModule (Module.lone i name)).standing id = .rooted ns.length := by
    rw [← standing_disown (n := t.size), hdisown]
    exact (Module.standing_rooted_iff hw).mpr ⟨ns, hchain, rfl⟩
  have hclosed := ht.closed_registerModule (Module.lone i name)
  constructor
  · exact (mem_order_iff_end hclosed).mpr ⟨hmod, (standing_eq_rooted_iff.mp hstanding).1⟩
  · intro hfailed
    simp only [Module.start, cycles_eq hclosed, blocked_eq hclosed, List.mem_append] at hfailed
    rcases hfailed with (hfailed | hfailed) | hfailed
    · -- the only class of the module is no repeat
      change id ∈ ((t.registerModule (Module.lone i name)).disown t.size).duplicates.map _ at hfailed
      rw [hdisown] at hfailed
      obtain ⟨d, hd, hrepeat⟩ := Module.mem_duplicates_iff.mp hfailed
      obtain rfl := Module.mem_declared_lone.mp (Module.mem_declared_of_roster hd)
      exact hrepeat Module.declaration?_lone
    · have := (mem_moduleClasses_iff.mp hfailed).2
      rw [hstanding] at this
      cases this
    · have := (mem_moduleClasses_iff.mp hfailed).2
      rw [hstanding] at this
      cases this

section Taken

/-! A class `e` that has the position of the class of a module. No other class is above it. -/

variable (ht : t.Tidy) (he : t.get? id = some e) (hi : e.statement = some i)
  (hsuper : ∀ n, e.superclass = some n → n = name)

include hsuper in
/-- The entry that was there has a chain: it has no superclass, or the class of the module. -/
theorem chain_taken : ∃ ns, (Module.lone i name).Chain t.hostClasses e.superclass ns := by
  cases hs : e.superclass with
  | none => exact ⟨[], .root rfl⟩
  | some n =>
    obtain rfl := hsuper n hs
    exact ⟨[n], .link (Module.meaning_own _ Module.declaration?_lone) Module.chain_lone⟩

include ht he hsuper in
/-- If it has an ancestor, then the class of the module. -/
theorem mem_ancestors_taken (ha : a ∈ (t.registerModule (Module.lone i name)).ancestors id) :
    a = t.size := by
  rw [← ancestors_disown (n := t.size), disown_registerModule ht,
    Module.mem_ancestors_table (roster_of_get? he)] at ha
  obtain ⟨n, hn, hlookup⟩ := ha
  change (Module.lone i name).Above t.hostClasses e.superclass n at hn
  -- the only name above the entry is that of the class, which has nothing above it
  have hname : n = name := by
    cases hs : e.superclass with
    | none =>
      rw [hs] at hn
      cases hn
    | some k =>
      obtain rfl := hsuper k hs
      rw [hs, Module.above_some_iff (Module.meaning_own _ Module.declaration?_lone)] at hn
      exact hn.resolve_right Module.not_above_lone
  subst hname
  have hown := (Module.lookup_own_iff (roster_lone t i n)).mpr Module.declaration?_lone
  exact Option.some.inj (hlookup.symm.trans hown)

/-- The class of the module has no ancestors. -/
theorem not_mem_ancestors_lone (ht : t.Tidy) :
    a ∉ (t.registerModule (Module.lone i name)).ancestors t.size := by
  intro ha
  rw [← ancestors_disown (n := t.size), disown_registerModule ht,
    Module.mem_ancestors_table (roster_lone t i name)] at ha
  obtain ⟨n, hn, -⟩ := ha
  exact Module.not_above_lone hn

include ht he hi hsuper

/-- Before the run both classes wait for an attempt. -/
theorem awaits_taken :
    ((Module.lone i name).start t).Awaits i name [id, t.size] ∧
      [id, t.size] ⊆ (t.registerModule (Module.lone i name)).inheritanceOrder.order := by
  -- both entries say that they stand at the same position
  have hforeign : ((t.registerModule (Module.lone i name)).get? id).bind ClassEntry.statement =
      some i := by
    rw [statement_registerModule (List.getElem?_eq_some_iff.mp he).1, he]
    exact hi
  have hown : ((t.registerModule (Module.lone i name)).get? t.size).bind ClassEntry.statement =
      some i := by
    have hstatement := Module.statement_own (roster_lone t i name)
    rwa [← disown_registerModule ht, statement_disown, if_neg (Nat.lt_irrefl _)] at hstatement
  obtain ⟨ns, hns⟩ := chain_taken (t := t) (i := i) hsuper
  -- both have a chain, so both are scheduled and neither starts as failed
  obtain ⟨horder, hfailed⟩ := scheduled_lone ht (roster_of_get? he) hns
    (Option.isSome_iff_exists.mpr ⟨i, hforeign⟩)
  obtain ⟨horder', hfailed'⟩ := scheduled_lone ht (roster_lone t i name) Module.chain_lone
    (Option.isSome_iff_exists.mpr ⟨i, hown⟩)
  have hpair : ∀ {P : ClassId → Prop}, P id → P t.size → ∀ a ∈ [id, t.size], P a := by
    intro P h h' a ha
    rcases List.mem_pair.mp ha with rfl | rfl
    · exact h
    · exact h'
  refine ⟨⟨rfl, hpair hforeign hown, hpair ?_ ?_, hpair hfailed hfailed'⟩, hpair horder horder'⟩
  · intro a ha
    rw [mem_ancestors_taken ht he hsuper ha]
    exact List.mem_pair.mpr (.inr rfl)
  · intro a ha
    exact absurd ha (not_mem_ancestors_lone ht)

end Taken

/-- A class with a position is taken for the class of a module that stands there. -/
theorem exists_not_same (ht : t.Tidy) (he : e ∈ t.classes) (hi : e.statement = some i)
    (options : Options) :
    ∃ m : Module, ¬ (m.promote t options).Same (m.promote (ofHost t.hostClasses) options) := by
  obtain ⟨id, hid⟩ := List.mem_iff_getElem?.mp he
  have hne : id ≠ t.size := Nat.ne_of_lt (List.getElem?_eq_some_iff.mp hid).1
  -- so that the chain above the class ends, the new class has the name of its superclass
  obtain ⟨name, hsuper⟩ : ∃ name, ∀ n, e.superclass = some n → n = name :=
    ⟨e.superclass.getD "", fun n hn => by rw [hn]; rfl⟩
  refine ⟨Module.lone i name, ?_⟩
  rintro ⟨-, hsame⟩
  -- with the classes of a host there is one report
  rw [((Module.promotes_promote _ _ _).unique
    (Module.promotes_lone i name t.hostClasses options)).2] at hsame
  have hreports : ((Module.lone i name).finish t options).reports.length = 1 :=
    (congrArg (List.length ∘ Report.classes) (verdict_eq_ok_iff.mp hsame).2).symm
  -- and here there are two
  obtain ⟨hawaits, hsub⟩ := awaits_taken ht hid hi hsuper
  have hcount := hawaits.countP_le options
    (t.registerModule (Module.lone i name)).inheritanceOrder.order
  have htwo : 2 ≤ (t.registerModule (Module.lone i name)).inheritanceOrder.order.countP
      (· ∈ [id, t.size]) := by
    have hnodup : [id, t.size].Nodup := by simpa using hne
    have hle := (hnodup.subperm hsub).countP_le (· ∈ [id, t.size])
    simpa using hle
  rw [Module.finish, Module.checkContexts_failed_lone] at hreports
  rw [Progress.run, hreports] at hcount
  have habsurd : 2 ≤ 1 := htwo.trans ((Nat.le_add_left _ _).trans hcount)
  omega

/-! ## §3 Tables whose classes are only looked up -/

/-- A step adds positions at the end. -/
theorem map_statement_apply (t : ClassTable) (op : TableOp) :
    (t.apply op).classes.map ClassEntry.statement =
      t.classes.map ClassEntry.statement ++ op.positions := by
  cases op with
  | external c => exact List.map_append
  | module m =>
    show ((t.takeUp m).classes.map _).map _ = _
    rw [takeUp, (intake_spec _ _).1, Module.entriesOf_eq, List.map_map, List.map_append, List.map_map]
    rfl
  | resolve => exact (List.map_map.trans (List.append_nil _).symm)
  | addField id field =>
    -- a field changes an entry, but not its position
    apply List.ext_getElem?
    intro a
    rw [TableOp.positions, List.append_nil, List.getElem?_map, List.getElem?_map]
    show ((t.addField id field).get? a).map _ = (t.get? a).map _
    rw [get?_addField, Option.map_map]
    refine Option.map_congr fun e _ => ?_
    rw [Function.comp_apply]
    split <;> rfl

/-- No class of a table has a position as long as it has taken up no module with a class. -/
theorem statement_eq_none_iff (ops : List TableOp) :
    (∀ e ∈ (ofOps ops).classes, e.statement = none) ↔ ∀ m, .module m ∈ ops → m.classes = [] := by
  -- the positions in a table are those that its steps have brought along, in order
  have hpositions : (ofOps ops).classes.map ClassEntry.statement = ops.flatMap TableOp.positions := by
    induction ops using List.reverseRecOn with
    | nil => rfl
    | append_singleton ops op ih =>
      rw [ofOps, List.foldl_append, List.flatMap_append, List.flatMap_singleton, ← ih]
      exact map_statement_apply _ op
  have hall : (∀ e ∈ (ofOps ops).classes, e.statement = none) ↔
      ∀ i ∈ ops.flatMap TableOp.positions, i = none := by
    rw [← hpositions, List.forall_mem_map]
  rw [hall, List.forall_mem_flatMap]
  constructor
  · intro h m hm
    exact TableOp.positions_eq_none_iff.mp (h _ hm) m rfl
  · rintro h op hop
    exact TableOp.positions_eq_none_iff.mpr fun m hm => h m (hm ▸ hop)

/-- The classes of a table in use that has no class name twice are only looked up, as if a host had
registered them, when they are kept apart from the module at hand; and they are only looked up whatever
the module is exactly if the table has not taken up a class with another module. -/
theorem same_ofOps_iff (ops : List TableOp) (hdistinct : (ops.flatMap TableOp.registered).Nodup) :
    (∀ (m : Module) (options : Options), (ofOps ops).KeptApart m →
      (m.promote (ofOps ops) options).Same
        (m.promote (ofHost (ofOps ops).hostClasses) options)) ∧
    ((∀ (m : Module) (options : Options), (m.promote (ofOps ops) options).Same
        (m.promote (ofHost (ofOps ops).hostClasses) options)) ↔
      ∀ m, .module m ∈ ops → m.classes = []) := by
  have ht := tidy_ofOps hdistinct
  refine ⟨fun m options h => h.same ht options, ?_⟩
  rw [← statement_eq_none_iff]
  constructor
  · intro hsame e he
    by_contra hpos
    obtain ⟨i, hi⟩ := Option.ne_none_iff_exists'.mp hpos
    obtain ⟨m, hm⟩ := exists_not_same ht he hi {}
    exact hm (hsame m {})
  · intro hnone m options
    apply KeptApart.same ht
    -- there is nothing to keep apart
    constructor
    · intro e he i hi
      rw [hnone e he] at hi
      cases hi
    · intro e he hi
      rw [hnone e he] at hi
      cases hi

/-- A library with one class. -/
def library : Module where
  statements := [.classDecl (.named "Base")]

/-- A class at the position that `Base` has in the library, and a class below `Base`. -/
def users : Module where
  statements :=
    [.classDecl ((ClassDecl.named "Other").withMember
      (.ctor (.make [(Param.named "x").withModifier (.storage .var)] []))),
     .classDecl { ClassDecl.named "User" with
        superclass := some { name := "Base" }
        members := [.ctor (.make [(Param.named "x").withModifier (.storage .var)] [])] }]

/-- The fields of `Other` are taken for fields of `Base`, so `User` gets none. -/
theorem same_ofOps_library :
    ([TableOp.module library].flatMap TableOp.registered).Nodup ∧
      (users.promote (ofOps [.module library]) {}).result =
        .error [.duplicateField "x" "Base" {} {}] ∧
      (users.promote (ofHost (ofOps [.module library]).hostClasses) {}).result =
        .ok { classes := [{ cls := "Other", fields := [⟨"x", .var, .priv, {}⟩] },
          { cls := "User", fields := [⟨"x", .var, .priv, {}⟩] }] } ∧
      ¬ ∀ (m : Module) (options : Options), (m.promote (ofOps [.module library]) options).Same
        (m.promote (ofHost (ofOps [.module library]).hostClasses) options) := by
  have hdistinct : ([TableOp.module library].flatMap TableOp.registered).Nodup := by decide
  refine ⟨hdistinct, by cbv, by cbv, fun hsame => ?_⟩
  have hnil := (same_ofOps_iff _ hdistinct).2.mp hsame library List.mem_cons_self
  cases hnil

end ClassTable

end FieldPromotion
