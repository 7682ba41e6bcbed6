import FieldPromotion.Proofs.Ancestry
import FieldPromotion.Proofs.Outcome

/-!
# One class after the other

What looking at one class changes, and from it what a whole run changes. A class is tried or passed
over; either way nothing is touched but its own entry, its own statement and its own failure.
-/

namespace FieldPromotion

/-! ## §1 Tables that differ in fields only -/

namespace ClassTable

/-- The entries of a table without their fields. -/
def frame (t : ClassTable) : List ClassEntry :=
  t.classes.map fun e => { e with fields := [] }

/-- The name of a class with its fields. -/
def listing (t : ClassTable) (id : ClassId) : String × List FieldSite :=
  (t.nameOf id, ((t.get? id).map ClassEntry.fields).getD [])

variable {t u : ClassTable}

/-- Whatever does not look at the fields of a class is the same for two tables that differ in fields
only. -/
theorem bind_get?_of_frame (h : u.frame = t.frame) {β : Type} {f : ClassEntry → Option β}
    (hf : ∀ e, f { e with fields := [] } = f e) (id : ClassId) :
    (u.get? id).bind f = (t.get? id).bind f := by
  have hframe : ∀ v : ClassTable, (v.get? id).bind f = (v.frame[id]?).bind f := by
    intro v
    rw [frame, List.getElem?_map, get?]
    cases v.classes[id]? with
    | none => rfl
    | some e => exact (hf e).symm
  rw [hframe, hframe, h]

theorem parentOf_of_frame (h : u.frame = t.frame) (id : ClassId) : u.parentOf id = t.parentOf id :=
  bind_get?_of_frame h (fun _ => rfl) id

theorem statement_of_frame (h : u.frame = t.frame) (id : ClassId) :
    (u.get? id).bind ClassEntry.statement = (t.get? id).bind ClassEntry.statement :=
  bind_get?_of_frame h (fun _ => rfl) id

/-- Such tables have the same ancestors. -/
theorem ancestors_of_frame (h : u.frame = t.frame) (id : ClassId) :
    u.ancestors id = t.ancestors id := by
  refine ancestors_congr ?_ (parentOf_of_frame h) id
  simpa [frame, size] using congrArg List.length h

/-- Adding fields to a class changes the fields of this class only. -/
theorem get?_addFields (t : ClassTable) (id : ClassId) (fs : List FieldSummary) (a : ClassId) :
    (fs.foldl (fun t f => t.addField id { name := f.name, span := f.span }) t).get? a =
      (t.get? a).map fun e =>
        if a = id then { e with fields := e.fields ++ fs.map FieldSummary.site } else e := by
  induction fs generalizing t with
  | nil => simp
  | cons f fs ih =>
    rw [List.foldl_cons, ih, addField, get?, List.getElem?_modify, get?]
    by_cases h : a = id
    · subst h
      cases t.classes[a]? with
      | none => rfl
      | some e => simp [FieldSummary.site]
    · simp [h, Ne.symm h]

/-- Adding fields keeps everything else in a table. -/
theorem frame_addFields (t : ClassTable) (id : ClassId) (fs : List FieldSummary) :
    (fs.foldl (fun t f => t.addField id { name := f.name, span := f.span }) t).frame = t.frame := by
  refine List.ext_getElem? fun a => ?_
  have h := get?_addFields t id fs a
  rw [get?, get?] at h
  rw [frame, frame, List.getElem?_map, List.getElem?_map, h]
  cases t.classes[a]? with
  | none => rfl
  | some e => by_cases ha : a = id <;> simp [ha]

theorem listing_congr {id : ClassId} (h : u.get? id = t.get? id) : u.listing id = t.listing id := by
  rw [listing, listing, nameOf, nameOf, h]

/-- The index of a class shows the fields of the class and of its ancestors. -/
theorem shows_fieldIndex (t : ClassTable) (id : ClassId) :
    (t.fieldIndex id).Shows ((id :: t.ancestors id).map t.listing) := by
  have horigins : t.origins = fun a => (t.listing a).2.map fun f =>
      (f.name, { cls := a, className := (t.listing a).1, span := f.span }) := by
    funext a
    unfold origins listing nameOf
    cases t.get? a <;> rfl
  rw [fieldIndex, horigins]
  exact FieldIndex.shows_flatMap (fun a => a) t.listing _

end ClassTable

/-! ## §2 One step -/

namespace Progress

/-- The attempt that is made when a class is looked at. -/
def trial? (options : Options) (spoilt : List Nat) (p : Progress) (id : ClassId) : Option Trial :=
  match (p.table.get? id).bind ClassEntry.statement with
  | none => none
  | some i =>
    if p.failed.contains id || spoilt.contains i ||
      (p.table.ancestors id).any p.failed.contains then none
    else ((p.statements[i]?).bind Stmt.class?).map fun c =>
      { cls := { position := i, decl := c }, result := c.promote (p.table.fieldIndex id) options }

variable {options : Options} {spoilt : List Nat} {p : Progress} {id a : ClassId} {t : Trial}
  {ids : List ClassId} {i : Nat} {c : ClassDecl}

/-- A class is tried unless it has failed before, is spoilt, or is below a class that has failed. -/
theorem trial?_eq_some_iff : p.trial? options spoilt id = some t ↔
    (p.table.get? id).bind ClassEntry.statement = some t.cls.position ∧
      (p.statements[t.cls.position]?).bind Stmt.class? = some t.cls.decl ∧
      id ∉ p.failed ∧ t.cls.position ∉ spoilt ∧ (∀ a ∈ p.table.ancestors id, a ∉ p.failed) ∧
      t.cls.decl.promote (p.table.fieldIndex id) options = t.result := by
  unfold trial?
  constructor
  · intro h
    split at h
    · cases h
    · rename_i i hi
      split at h
      · cases h
      · rename_i hcond
        obtain ⟨c, hc, rfl⟩ := Option.map_eq_some_iff.mp h
        simp only [Bool.or_eq_true, List.contains_iff_mem, List.any_eq_true, not_or, not_exists,
          not_and] at hcond
        exact ⟨hi, hc, hcond.1.1, hcond.1.2, hcond.2, rfl⟩
  · obtain ⟨⟨i, c⟩, r⟩ := t
    rintro ⟨hi, hc, hfailed, hspoilt, habove, hr⟩
    simp only at hi hc hspoilt hr ⊢
    have hany : (p.table.ancestors id).any p.failed.contains = false := by
      rw [List.any_eq_false]
      intro a ha
      simpa using habove a ha
    simp [hi, hc, hfailed, hspoilt, hany, hr]

@[simp] theorem table_put (p : Progress) (i : Nat) (c : ClassDecl) : (p.put i c).table = p.table :=
  rfl

/-- A class that is put where it stands already changes nothing. -/
theorem put_eq_self (h : (p.statements[i]?).bind Stmt.class? = some c) : p.put i c = p := by
  obtain ⟨s, hs, hclass⟩ := Option.bind_eq_some_iff.mp h
  obtain rfl := Stmt.eq_classDecl_of_class? hclass
  obtain ⟨hlt, hget⟩ := List.getElem?_eq_some_iff.mp hs
  rw [put, ← hget, List.set_getElem_self]

/-- What a step does to a class that is tried. If the edit of the class fails, the class stands
there as before. -/
theorem step_of_trial (h : p.trial? options spoilt id = some t) :
    p.step options spoilt id = match t.result with
      | .ok new => (p.put t.cls.position new.decl).accept id new
      | .error errors => p.reject id t.cls.name errors := by
  obtain ⟨hi, hc, hfailed, hspoilt, habove, hr⟩ := trial?_eq_some_iff.mp h
  -- nothing stands against the attempt, so the class is edited
  have hnone : (p.table.ancestors id).find? p.failed.contains = none := by
    rw [List.find?_eq_none]
    intro a ha
    simpa using habove a ha
  simp only [step, hi, visit, List.contains_iff_mem, hfailed, hspoilt, if_false, hnone, hc]
  cases hresult : t.result with
  | ok new => rw [ClassDecl.run_edit_of_promote_ok (hr.trans hresult)]
  | error errors =>
    rw [ClassDecl.run_edit_of_promote_error (hr.trans hresult)]
    simp only [put_eq_self hc]
    rfl

/-- What a step does to a class that is passed over: it may be marked as failed, and it is if there
is such a class in the module. -/
theorem step_of_no_trial (h : p.trial? options spoilt id = none) :
    ∃ failed events, p.step options spoilt id = { p with failed := failed, events := events } ∧
      (∀ a, a ≠ id → (a ∈ failed ↔ a ∈ p.failed)) ∧
      ∀ i c, (p.table.get? id).bind ClassEntry.statement = some i →
        (p.statements[i]?).bind Stmt.class? = some c → id ∈ failed := by
  have hmark : ∀ a, a ≠ id → (a ∈ id :: p.failed ↔ a ∈ p.failed) := fun a ha => by simp [ha]
  unfold step visit
  cases hi : (p.table.get? id).bind ClassEntry.statement with
  | none => exact ⟨p.failed, p.events, rfl, fun _ _ => Iff.rfl, nofun⟩
  | some i =>
    simp only [List.contains_iff_mem]
    split
    · -- failed before
      exact ⟨p.failed, p.events, rfl, fun _ _ => Iff.rfl, fun _ _ _ _ => by assumption⟩
    · split
      · -- spoilt
        exact ⟨_, p.events, rfl, hmark, fun _ _ _ _ => List.mem_cons_self⟩
      · split
        · -- below a failed class
          exact ⟨_, _, rfl, hmark, fun _ _ _ _ => List.mem_cons_self⟩
        · rename_i hfailed hspoilt _ hnone
          cases hc : (p.statements[i]?).bind Stmt.class? with
          | none =>
            refine ⟨p.failed, p.events, rfl, fun _ _ => Iff.rfl, fun j c hj hc' => ?_⟩
            cases hj
            rw [hc] at hc'
            cases hc'
          | some c =>
            -- nothing stands against an attempt
            rw [List.find?_eq_none] at hnone
            have habove : ∀ a ∈ p.table.ancestors id, a ∉ p.failed := by
              intro a ha
              simpa using hnone a ha
            have htrial : p.trial? options spoilt id =
                some ⟨⟨i, c⟩, c.promote (p.table.fieldIndex id) options⟩ :=
              trial?_eq_some_iff.mpr ⟨hi, hc, hfailed, hspoilt, habove, rfl⟩
            rw [h] at htrial
            cases htrial

/-! ## §3 What a step leaves alone -/

/-- A step changes the table in fields only. -/
theorem frame_step (options : Options) (spoilt : List Nat) (p : Progress) (id : ClassId) :
    (p.step options spoilt id).table.frame = p.table.frame := by
  cases h : p.trial? options spoilt id with
  | none =>
    obtain ⟨failed, events, hstep, -, -⟩ := step_of_no_trial h
    rw [hstep]
  | some t =>
    rw [step_of_trial h]
    cases t.result with
    | ok new => exact ClassTable.frame_addFields _ _ _
    | error errors => rfl

/-- It changes no entry but that of the class it looks at. -/
theorem get?_step (h : a ≠ id) :
    (p.step options spoilt id).table.get? a = p.table.get? a := by
  cases ht : p.trial? options spoilt id with
  | none =>
    obtain ⟨failed, events, hstep, -, -⟩ := step_of_no_trial ht
    rw [hstep]
  | some t =>
    rw [step_of_trial ht]
    cases t.result with
    | ok new =>
      apply (ClassTable.get?_addFields _ _ _ _).trans
      simp [h]
    | error errors => rfl

/-- It marks no other class as failed. -/
theorem mem_failed_step (h : a ≠ id) :
    a ∈ (p.step options spoilt id).failed ↔ a ∈ p.failed := by
  cases ht : p.trial? options spoilt id with
  | none =>
    obtain ⟨failed, events, hstep, hfailed, -⟩ := step_of_no_trial ht
    rw [hstep]
    exact hfailed a h
  | some t =>
    rw [step_of_trial ht]
    cases t.result with
    | ok new => exact Iff.rfl
    | error errors =>
      show a ∈ id :: p.failed ↔ a ∈ p.failed
      simp [h]

/-- Only the statement of a class that is tried and accepted changes. -/
theorem statements_step (h : ∀ t new, p.trial? options spoilt id = some t → t.result = .ok new →
    t.cls.position ≠ i) :
    (p.step options spoilt id).statements[i]? = p.statements[i]? := by
  cases ht : p.trial? options spoilt id with
  | none =>
    obtain ⟨failed, events, hstep, -, -⟩ := step_of_no_trial ht
    rw [hstep]
  | some t =>
    rw [step_of_trial ht]
    cases hr : t.result with
    | ok new =>
      show (p.statements.set t.cls.position (.classDecl new.decl))[i]? = p.statements[i]?
      exact List.getElem?_set_ne (h t new ht hr)
    | error errors => rfl

/-- It adds the errors of its attempt. -/
theorem errors_step (options : Options) (spoilt : List Nat) (p : Progress) (id : ClassId) :
    (p.step options spoilt id).errors =
      p.errors ++ (p.trial? options spoilt id).toList.flatMap Trial.errors := by
  cases h : p.trial? options spoilt id with
  | none =>
    obtain ⟨failed, events, hstep, -, -⟩ := step_of_no_trial h
    rw [hstep]
    exact (List.append_nil _).symm
  | some t =>
    rw [step_of_trial h, Option.toList_some, List.flatMap_singleton, Trial.errors]
    cases t.result with
    | ok new => exact (List.append_nil _).symm
    | error errors => rfl

/-- It adds the report of its attempt. -/
theorem reports_step (options : Options) (spoilt : List Nat) (p : Progress) (id : ClassId) :
    (p.step options spoilt id).reports =
      p.reports ++ (p.trial? options spoilt id).toList.filterMap Trial.report? := by
  cases h : p.trial? options spoilt id with
  | none =>
    obtain ⟨failed, events, hstep, -, -⟩ := step_of_no_trial h
    rw [hstep]
    exact (List.append_nil _).symm
  | some t =>
    obtain ⟨-, -, -, -, -, hpromote⟩ := trial?_eq_some_iff.mp h
    rw [step_of_trial h, Option.toList_some]
    cases hr : t.result with
    | ok new =>
      -- the report has the name of the changed class, which is the name it had
      have hname : new.decl.name = t.cls.decl.name := (ClassDecl.promote_head (hpromote.trans hr)).1
      have hreport : t.report? = some { cls := new.decl.name.name, fields := new.fields } := by
        rw [Trial.report?, hr, hname]
        rfl
      rw [List.filterMap_cons_some hreport]
      rfl
    | error errors =>
      have hreport : t.report? = none := by rw [Trial.report?, hr]
      rw [List.filterMap_cons_none hreport]
      exact (List.append_nil _).symm

/-! ## §4 Runs -/

/-- Looks at classes one after the other. -/
def run (options : Options) (spoilt : List Nat) (p : Progress) (ids : List ClassId) : Progress :=
  ids.foldl (step options spoilt) p

/-- The attempts of a run. -/
def trials (options : Options) (spoilt : List Nat) : Progress → List ClassId → List Trial
  | _, [] => []
  | p, id :: ids =>
    (p.trial? options spoilt id).toList ++ trials options spoilt (p.step options spoilt id) ids

theorem run_cons (p : Progress) (id : ClassId) (ids : List ClassId) :
    p.run options spoilt (id :: ids) = (p.step options spoilt id).run options spoilt ids := rfl

theorem run_append (p : Progress) (ids ids' : List ClassId) :
    p.run options spoilt (ids ++ ids') = (p.run options spoilt ids).run options spoilt ids' :=
  List.foldl_append

/-- A run changes the table in fields only. -/
theorem frame_run (options : Options) (spoilt : List Nat) (p : Progress) (ids : List ClassId) :
    (p.run options spoilt ids).table.frame = p.table.frame := by
  induction ids generalizing p with
  | nil => rfl
  | cons id ids ih => rw [run_cons, ih, frame_step]

/-- It changes no entry of a class that it does not look at. -/
theorem get?_run (h : a ∉ ids) : (p.run options spoilt ids).table.get? a = p.table.get? a := by
  induction ids generalizing p with
  | nil => rfl
  | cons id ids ih =>
    -- neither the first step nor the rest of the run looks at the class
    obtain ⟨hne, hnot⟩ := List.ne_and_not_mem_of_not_mem_cons h
    rw [run_cons, ih hnot, get?_step hne]

/-- It marks no class as failed that it does not look at. -/
theorem mem_failed_run (h : a ∉ ids) : a ∈ (p.run options spoilt ids).failed ↔ a ∈ p.failed := by
  induction ids generalizing p with
  | nil => exact Iff.rfl
  | cons id ids ih =>
    obtain ⟨hne, hnot⟩ := List.ne_and_not_mem_of_not_mem_cons h
    rw [run_cons, ih hnot, mem_failed_step hne]

/-- A statement stays unless the run accepts the class that it declares. -/
theorem statements_run (h : ∀ t ∈ p.trials options spoilt ids, ∀ new, t.result = .ok new →
    t.cls.position ≠ i) :
    (p.run options spoilt ids).statements[i]? = p.statements[i]? := by
  induction ids generalizing p with
  | nil => rfl
  | cons id ids ih =>
    rw [run_cons, ih fun t ht => h t (List.mem_append_right _ ht), statements_step]
    intro t new ht
    apply h t
    rw [trials, ht]
    exact List.mem_append_left _ (List.mem_singleton.mpr rfl)

/-- It adds the errors of its attempts, one after the other. -/
theorem errors_run (options : Options) (spoilt : List Nat) (p : Progress) (ids : List ClassId) :
    (p.run options spoilt ids).errors =
      p.errors ++ (p.trials options spoilt ids).flatMap Trial.errors := by
  induction ids generalizing p with
  | nil => exact (List.append_nil _).symm
  | cons id ids ih => rw [run_cons, ih, errors_step, trials, List.flatMap_append, List.append_assoc]

/-- It adds the reports of its attempts, one after the other. -/
theorem reports_run (options : Options) (spoilt : List Nat) (p : Progress) (ids : List ClassId) :
    (p.run options spoilt ids).reports =
      p.reports ++ (p.trials options spoilt ids).filterMap Trial.report? := by
  induction ids generalizing p with
  | nil => exact (List.append_nil _).symm
  | cons id ids ih =>
    rw [run_cons, ih, reports_step, trials, List.filterMap_append, List.append_assoc]

/-- Each attempt of a run is made at some class, after those listed before it. -/
theorem mem_trials_iff : t ∈ p.trials options spoilt ids ↔
    ∃ pre id post, ids = pre ++ id :: post ∧
      (p.run options spoilt pre).trial? options spoilt id = some t := by
  -- the attempt is made at the first class, or later in the run
  induction ids generalizing p with
  | nil => simp [trials]
  | cons x ids ih =>
    rw [trials, List.mem_append, ih, Option.mem_toList]
    constructor
    · rintro (h | ⟨pre, id, post, rfl, h⟩)
      · exact ⟨[], x, ids, rfl, h⟩
      · exact ⟨x :: pre, id, post, rfl, h⟩
    · rintro ⟨pre, id, post, heq, h⟩
      cases pre with
      | nil =>
        cases heq
        exact Or.inl h
      | cons y pre =>
        cases heq
        exact Or.inr ⟨pre, id, post, rfl, h⟩

/-- The attempts come in the order in which the classes are looked at. -/
theorem positions_trials (options : Options) (spoilt : List Nat) (p : Progress)
    (ids : List ClassId) :
    ((p.trials options spoilt ids).map (·.cls.position)).Sublist
      (ids.filterMap fun id => (p.table.get? id).bind ClassEntry.statement) := by
  induction ids generalizing p with
  | nil => exact List.Sublist.refl _
  | cons id ids ih =>
    -- steps change no position, so the rest of the run can be compared with the table at the
    -- start
    have hrest := ih (p.step options spoilt id)
    simp only [ClassTable.statement_of_frame (frame_step options spoilt p id)] at hrest
    rw [trials, List.map_append]
    cases ht : p.trial? options spoilt id with
    | none =>
      refine List.Sublist.trans hrest ?_
      rw [List.filterMap_cons]
      split
      · exact List.Sublist.refl _
      · exact List.sublist_cons_self _ _
    | some t =>
      have hi := (trial?_eq_some_iff.mp ht).1
      simp only [List.filterMap_cons, hi]
      exact hrest.cons_cons _

end Progress

end FieldPromotion
