import FieldPromotion.Proofs.Hierarchy
import Mathlib.Data.List.Forall2

/-!
# Promotion of one class

What is known of a class after its argument fields were promoted. Promotion looks at the index of
inherited fields only to ask where a name was declared. It keeps the head of a class, puts one run of
new fields among its fields, whose names are new to the class and to each other, and leaves a class
in which promotion finds nothing more to do.
-/

namespace FieldPromotion

/-- The first item of a list that gives something, by its position. -/
theorem findSome?_eq_some_iff_getElem? {α β : Type} {f : α → Option β} {xs : List α} {b : β} :
    xs.findSome? f = some b ↔ ∃ (k : Nat) (x : α), xs[k]? = some x ∧ f x = some b ∧
      ∀ j < k, ∀ y, xs[j]? = some y → f y = none := by
  rw [List.findSome?_eq_some_iff]
  constructor
  · intro h
    obtain ⟨before, x, after, rfl, hx, hbefore⟩ := h
    refine ⟨before.length, x, by simp, hx, ?_⟩
    intro j hj y hy
    rw [List.getElem?_append_left hj] at hy
    exact hbefore y (List.mem_of_getElem? hy)
  · intro h
    obtain ⟨k, x, hk, hx, hbefore⟩ := h
    -- the place cuts the list into what comes before and what comes after
    refine ⟨xs.take k, x, xs.drop (k + 1), ?_, hx, ?_⟩
    · obtain ⟨hlt, rfl⟩ := List.getElem?_eq_some_iff.mp hk
      rw [List.getElem_cons_drop, List.take_append_drop]
    · intro y hy
      obtain ⟨j, hj⟩ := List.mem_iff_getElem?.mp hy
      have hjk : j < k := by
        have := (List.getElem?_eq_some_iff.mp hj).1
        rw [List.length_take] at this
        omega
      rw [List.getElem?_take_of_lt hjk] at hj
      exact hbefore j hjk y hj

/-- What a partial function gives, beside the items that it gives something for. -/
theorem forall₂_filterMap {α β : Type} (f : α → Option β) (xs : List α) :
    List.Forall₂ (fun x y => f x = some y) (xs.filter fun x => (f x).isSome) (xs.filterMap f) := by
  induction xs with
  | nil => exact .nil
  | cons x xs ih =>
    cases hx : f x with
    | none =>
      rw [List.filterMap_cons_none hx, List.filter_cons_of_neg (by simp [hx])]
      exact ih
    | some y =>
      rw [List.filterMap_cons_some hx, List.filter_cons_of_pos (by simp [hx])]
      exact .cons hx ih

/-! ## §1 What promotion asks of the index -/

/-- Where a name was declared: the class and the span that an error shows. -/
def FieldIndex.origin? (index : FieldIndex) (name : String) : Option (String × Span) :=
  (index.get? name).map fun o => (o.className, o.span)

theorem FieldIndex.origin?_eq_none_iff {index : FieldIndex} {name : String} :
    index.origin? name = none ↔ index.get? name = none := by
  simp [FieldIndex.origin?]

theorem Param.clash?_congr {i j : FieldIndex} (h : ∀ n, i.origin? n = j.origin? n) (cls : String)
    (earlier : List (String × Span)) (p : Param) :
    p.clash? cls i earlier = p.clash? cls j earlier := by
  have hp := h p.name.name
  unfold FieldIndex.origin? at hp
  unfold Param.clash?
  cases hi : i.get? p.name.name <;> cases hj : j.get? p.name.name <;> simp_all

/-- Clashes depend on where names were declared, and on nothing else in the index. -/
theorem Param.clashes_congr {i j : FieldIndex} (h : ∀ n, i.origin? n = j.origin? n) (cls : String)
    (earlier : List (String × Span)) (ps : List (Param × Role)) :
    Param.clashes cls i earlier ps = Param.clashes cls j earlier ps := by
  induction ps generalizing earlier with
  | nil => rfl
  | cons pr ps ih =>
    obtain ⟨p, r⟩ := pr
    cases r with
    | plain => exact ih earlier
    | field c => rw [Param.clashes, Param.clashes, Param.clash?_congr h, ih]

/-- Two indexes that agree on where names were declared lead to the same result. -/
theorem ClassDecl.promote_congr {i j : FieldIndex} (h : ∀ n, i.origin? n = j.origin? n)
    (c : ClassDecl) (options : Options) : c.promote i options = c.promote j options := by
  have hedit : edit i options = edit j options := by
    unfold edit
    simp only [Param.clashes_congr h]
  rw [ClassDecl.promote, ClassDecl.promote, hedit]

/-! ## §2 Roles -/

/-- A plain parameter is one without modifiers. -/
theorem Param.role_eq_plain_iff {p : Param} : p.role = .ok .plain ↔ p.modifiers = [] := by
  constructor
  · intro h
    unfold Param.role at h
    split at h
    · cases h
    · split at h
      · split at h
        · assumption
        · cases h
      · split at h <;> cases h
  · intro h
    simp [Param.role, h, Slots.fill]

/-- All parameters have roles when each of them has one. -/
theorem Param.roles_eq_ok_iff {ps : List Param} {rs : List Role} :
    Param.roles ps = .ok rs ↔ List.Forall₂ (fun p r => p.role = .ok r) ps rs := by
  induction ps generalizing rs with
  | nil =>
    simp only [Param.roles, List.filterMap_nil, List.forall₂_nil_left_iff, Except.ok.injEq]
    exact eq_comm
  | cons p ps ih =>
    cases hp : p.role with
    | error e =>
      -- one parameter without role is enough for the list to have none
      have herr : p.roleError? = some e := by simp [Param.roleError?, hp]
      constructor
      · intro h
        simp [Param.roles, herr] at h
      · intro h
        obtain ⟨r, _, hr, _⟩ := List.forall₂_cons_left_iff.mp h
        rw [hp] at hr
        cases hr
    | ok r =>
      have herr : p.roleError? = none := by simp [Param.roleError?, hp]
      have hrole : p.role? = some r := by simp [Param.role?, hp]
      rw [List.forall₂_cons_left_iff]
      simp only [hp, ← ih]
      unfold Param.roles
      simp only [List.filterMap_cons, herr, hrole]
      -- the first parameter has a role, so it is the others that decide
      cases ps.filterMap Param.roleError? with
      | nil => simp [eq_comm]
      | cons e es => simp

/-- A list of parameters fails only with errors. -/
theorem Param.roles_error_ne_nil {ps : List Param} {errors : List Error}
    (h : Param.roles ps = .error errors) : errors ≠ [] := by
  unfold Param.roles at h
  split at h
  · cases h
  · rename_i hne
    rintro rfl
    exact hne (Except.error.inj h)

/-! ## §3 Names of argument fields -/

/-- The names of the argument fields among parameters that are given with their roles. -/
def candidateNames (ps : List (Param × Role)) : List String :=
  ps.filterMap fun pr => pr.2.candidate?.map fun _ => pr.1.name.name

/-- A name does not clash when it is neither in the index nor the name of an earlier argument
field. -/
theorem Param.clash?_eq_none_iff {p : Param} {cls : String} {index : FieldIndex}
    {earlier : List (String × Span)} : p.clash? cls index earlier = none ↔
      index.get? p.name.name = none ∧ earlier.lookup p.name.name = none := by
  unfold Param.clash?
  cases index.get? p.name.name <;> cases earlier.lookup p.name.name <;> simp

/-- There is no clash when the names are new to the class, to the earlier argument fields and to each
other. -/
theorem Param.clashes_eq_nil_iff {cls : String} {index : FieldIndex}
    {earlier : List (String × Span)} {ps : List (Param × Role)} :
    Param.clashes cls index earlier ps = [] ↔
      (∀ n ∈ candidateNames ps, index.get? n = none ∧ earlier.lookup n = none) ∧
      (candidateNames ps).Nodup := by
  induction ps generalizing earlier with
  | nil => simp [Param.clashes, candidateNames]
  | cons pr ps ih =>
    obtain ⟨p, r⟩ := pr
    cases r with
    -- a plain parameter is no field, and cannot clash
    | plain => exact ih
    | field c =>
      have hnames : candidateNames ((p, .field c) :: ps) = p.name.name :: candidateNames ps := rfl
      -- for the parameters that follow, the name of this one is taken
      have hlookup (n : String) : (earlier ++ [(p.name.name, p.name.span)]).lookup n = none ↔
          earlier.lookup n = none ∧ n ≠ p.name.name := by
        rw [List.lookup_append, Option.or_eq_none_iff]
        by_cases hn : n = p.name.name
        · simp [hn]
        · simp [List.lookup_cons, beq_eq_false_iff_ne.mpr hn, hn]
      rw [Param.clashes, List.append_eq_nil_iff, Option.toList_eq_nil_iff,
        Param.clash?_eq_none_iff, ih, hnames, List.forall_mem_cons, List.nodup_cons]
      simp only [hlookup]
      constructor
      · rintro ⟨hp, hps, hnodup⟩
        exact ⟨⟨hp, fun n hn => ⟨(hps n hn).1, (hps n hn).2.1⟩⟩,
          fun hmem => (hps _ hmem).2.2 rfl, hnodup⟩
      · rintro ⟨⟨hp, hps⟩, hnot, hnodup⟩
        refine ⟨hp, fun n hn => ⟨(hps n hn).1, (hps n hn).2, ?_⟩, hnodup⟩
        rintro rfl
        exact hnot hn

/-- The promoted fields are named after the argument fields. -/
theorem map_name_promotedFields (options : Options) (ps : List (Param × Role)) :
    (promotedFields options ps).map (·.name.name) = candidateNames ps := by
  rw [promotedFields, List.map_filterMap, candidateNames]
  refine List.filterMap_congr fun pr _ => ?_
  cases pr.2 <;> rfl

/-! ## §4 The edit of a class -/

namespace ClassDecl

/-- A class with one constructor whose argument fields are promoted; its parameters come with their
roles. -/
def promoteWith (c : ClassDecl) (options : Options) (ctor : CtorDecl) (ps : List (Param × Role)) :
    Promoted :=
  let fields := promotedFields options ps
  let members := c.members.map (Member.withCtor (ctor.promote ps fields))
  { decl := { c with members := insertFields options.fieldOrder fields members }
    fields := fields.map FieldDecl.summary
    events := .promoting c.name.name fields.length ::
      fields.map fun f => .promoted c.name.name f.name.name f.storage f.visibility }

section Edit

variable {c : ClassDecl} {index : FieldIndex} {options : Options} {ctor : CtorDecl}
  {rest : List CtorDecl} {roles : List Role} {errors : List Error}

/-- With nothing to refuse, an edit goes on with the class as it is. Otherwise it ends with the class
as it is. -/
theorem run_refuse_bind {α : Type} (next : EStateM (List Error) ClassDecl α) (c : ClassDecl) :
    (refuse errors >>= fun _ => next).run c =
      if errors = [] then next.run c else .error errors c := by
  cases errors <;> rfl

/-- With a second constructor nothing else is looked at. -/
theorem run_edit_of_extraCtors (h : c.extraCtors ≠ []) :
    (edit index options).run c = .error c.extraCtors c := by
  show (refuse c.extraCtors >>= fun _ => _).run c = _
  rw [run_refuse_bind, if_neg h]

/-- A class without constructor stays as it is. -/
theorem run_edit_of_ctors_nil (h : c.ctors = []) : (edit index options).run c = .ok ([], []) c := by
  have hextra : c.extraCtors = [] := by rw [extraCtors, h]
  show (refuse c.extraCtors >>= fun _ => _).run c = _
  rw [run_refuse_bind, if_pos hextra, h]
  rfl

/-- When a parameter has no role, the class has not been touched yet. -/
theorem run_edit_of_roles_error (hextra : c.extraCtors = []) (hctors : c.ctors = ctor :: rest)
    (hroles : Param.roles ctor.params = .error errors) :
    (edit index options).run c = .error errors c := by
  show (refuse c.extraCtors >>= fun _ => _).run c = _
  rw [run_refuse_bind, if_pos hextra, hctors]
  simp only [hroles]
  rfl

/-- The class is changed only after the last check. -/
theorem run_edit_of_roles_ok (hextra : c.extraCtors = []) (hctors : c.ctors = ctor :: rest)
    (hroles : Param.roles ctor.params = .ok roles) :
    (edit index options).run c =
      if Param.clashes c.name.name index [] (ctor.params.zip roles) = [] then
        .ok ((c.promoteWith options ctor (ctor.params.zip roles)).fields,
          (c.promoteWith options ctor (ctor.params.zip roles)).events)
          (c.promoteWith options ctor (ctor.params.zip roles)).decl
      else .error (Param.clashes c.name.name index [] (ctor.params.zip roles)) c := by
  show (refuse c.extraCtors >>= fun _ => _).run c = _
  rw [run_refuse_bind, if_pos hextra, hctors]
  simp only [hroles]
  rw [run_refuse_bind]
  rfl

/-- An edit that succeeds leaves the changed class in place. -/
theorem run_edit_of_promote_ok {new : Promoted} (h : c.promote index options = .ok new) :
    (edit index options).run c = .ok (new.fields, new.events) new.decl := by
  unfold promote at h
  split at h
  · rename_i hrun
    rw [hrun, ← Except.ok.inj h]
  · cases h

/-- An edit that fails leaves the class as it was. -/
theorem eq_of_run_edit_eq_error {left : ClassDecl}
    (h : (edit index options).run c = .error errors left) : left = c := by
  -- the checks come one after the other, and each of them ends the edit before the class is changed
  by_cases hextra : c.extraCtors = []
  · cases hctors : c.ctors with
    | nil =>
      rw [run_edit_of_ctors_nil hctors] at h
      cases h
    | cons ctor rest =>
      cases hroles : Param.roles ctor.params with
      | error es =>
        rw [run_edit_of_roles_error hextra hctors hroles] at h
        cases h
        rfl
      | ok roles =>
        rw [run_edit_of_roles_ok hextra hctors hroles] at h
        split at h <;> cases h
        rfl
  · rw [run_edit_of_extraCtors hextra] at h
    cases h
    rfl

/-- An edit fails with the errors of the promotion. -/
theorem run_edit_of_promote_error (h : c.promote index options = .error errors) :
    (edit index options).run c = .error errors c := by
  unfold promote at h
  split at h
  · cases h
  · rename_i left hrun
    obtain rfl := Except.error.inj h
    rw [hrun, eq_of_run_edit_eq_error hrun]

theorem promote_of_extraCtors (h : c.extraCtors ≠ []) :
    c.promote index options = .error c.extraCtors := by
  rw [promote, run_edit_of_extraCtors h]

theorem promote_of_ctors_nil (h : c.ctors = []) : c.promote index options = .ok { decl := c } := by
  rw [promote, run_edit_of_ctors_nil h]

theorem promote_of_roles_error (hextra : c.extraCtors = []) (hctors : c.ctors = ctor :: rest)
    (hroles : Param.roles ctor.params = .error errors) :
    c.promote index options = .error errors := by
  rw [promote, run_edit_of_roles_error hextra hctors hroles]

/-- With roles for all parameters, it is the clashes that decide. -/
theorem promote_of_roles_ok (hextra : c.extraCtors = []) (hctors : c.ctors = ctor :: rest)
    (hroles : Param.roles ctor.params = .ok roles) :
    c.promote index options =
      if Param.clashes c.name.name index [] (ctor.params.zip roles) = [] then
        .ok (c.promoteWith options ctor (ctor.params.zip roles))
      else .error (Param.clashes c.name.name index [] (ctor.params.zip roles)) := by
  rw [promote, run_edit_of_roles_ok hextra hctors hroles]
  by_cases hclash : Param.clashes c.name.name index [] (ctor.params.zip roles) = []
  · rw [if_pos hclash, if_pos hclash]
  · rw [if_neg hclash, if_neg hclash]

end Edit

/-! ## §5 Accepted classes -/

/-- Everything that can lead to an accepted class: there is no constructor, or there is one whose
parameters have roles and whose argument fields do not clash. -/
theorem promote_eq_ok_iff {c : ClassDecl} {index : FieldIndex} {options : Options}
    {new : Promoted} : c.promote index options = .ok new ↔
      (c.ctors = [] ∧ new = { decl := c }) ∨
      ∃ ctor roles, c.ctors = [ctor] ∧ Param.roles ctor.params = .ok roles ∧
        Param.clashes c.name.name index [] (ctor.params.zip roles) = [] ∧
        new = c.promoteWith options ctor (ctor.params.zip roles) := by
  -- no constructor, exactly one, or a second one
  rcases hctors : c.ctors with _ | ⟨ctor, _ | ⟨extra, rest⟩⟩
  · rw [promote_of_ctors_nil hctors]
    constructor
    · intro h
      exact Or.inl ⟨rfl, (Except.ok.inj h).symm⟩
    · rintro (⟨-, rfl⟩ | ⟨_, _, h, -⟩)
      · rfl
      · cases h
  · have hextra : c.extraCtors = [] := by rw [extraCtors, hctors]; rfl
    constructor
    · intro h
      refine Or.inr ⟨ctor, ?_⟩
      cases hroles : Param.roles ctor.params with
      | error errors =>
        rw [promote_of_roles_error hextra hctors hroles] at h
        cases h
      | ok roles =>
        rw [promote_of_roles_ok hextra hctors hroles] at h
        split at h
        · rename_i hclash
          exact ⟨roles, rfl, rfl, hclash, (Except.ok.inj h).symm⟩
        · cases h
    · rintro (⟨h, -⟩ | ⟨ctor', roles, hctor, hroles, hclash, rfl⟩)
      · cases h
      · obtain rfl : ctor = ctor' := by simpa using hctor
        rw [promote_of_roles_ok hextra hctors hroles, if_pos hclash]
  · have hextra : c.extraCtors ≠ [] := by simp [extraCtors, hctors]
    rw [promote_of_extraCtors hextra]
    simp

/-- Everything that can be wrong with a class: it has further constructors, its constructor has
parameters without role, or argument fields clash. There is always an error then. -/
theorem promote_eq_error_iff {c : ClassDecl} {index : FieldIndex} {options : Options}
    {errors : List Error} : c.promote index options = .error errors ↔
      errors ≠ [] ∧ (c.extraCtors = errors ∨ c.extraCtors = [] ∧ ∃ ctor rest,
        c.ctors = ctor :: rest ∧ (Param.roles ctor.params = .error errors ∨
          ∃ roles, Param.roles ctor.params = .ok roles ∧
            Param.clashes c.name.name index [] (ctor.params.zip roles) = errors)) := by
  constructor
  · intro h
    by_cases hextra : c.extraCtors = []
    · cases hctors : c.ctors with
      | nil =>
        rw [promote_of_ctors_nil hctors] at h
        cases h
      | cons ctor rest =>
        cases hroles : Param.roles ctor.params with
        | error es =>
          rw [promote_of_roles_error hextra hctors hroles] at h
          obtain rfl := Except.error.inj h
          exact ⟨Param.roles_error_ne_nil hroles,
            Or.inr ⟨hextra, ctor, rest, rfl, Or.inl hroles⟩⟩
        | ok roles =>
          rw [promote_of_roles_ok hextra hctors hroles] at h
          split at h
          · cases h
          · rename_i hclash
            obtain rfl := Except.error.inj h
            exact ⟨hclash, Or.inr ⟨hextra, ctor, rest, rfl, Or.inr ⟨roles, hroles, rfl⟩⟩⟩
    · -- further constructors: nothing else is looked at
      rw [promote_of_extraCtors hextra] at h
      obtain rfl := Except.error.inj h
      exact ⟨hextra, Or.inl rfl⟩
  · rintro ⟨hne, rfl | ⟨hextra, ctor, rest, hctors, hroles | ⟨roles, hroles, rfl⟩⟩⟩
    · exact promote_of_extraCtors hne
    · exact promote_of_roles_error hextra hctors hroles
    · rw [promote_of_roles_ok hextra hctors hroles, if_neg hne]

end ClassDecl

/-- The errors of a class do not depend on the options. -/
theorem ClassDecl.promote_error_options {c : ClassDecl} {index : FieldIndex} {options : Options}
    {errors : List Error} (h : c.promote index options = .error errors) (options' : Options) :
    c.promote index options' = .error errors := by
  rw [ClassDecl.promote_eq_error_iff] at *
  exact h

/-- The head of a class stays as it is. -/
theorem ClassDecl.promote_head {c : ClassDecl} {index : FieldIndex} {options : Options}
    {new : Promoted} (h : c.promote index options = .ok new) :
    new.decl.name = c.name ∧ new.decl.superclass = c.superclass ∧
      new.decl.isAbstract = c.isAbstract := by
  rcases ClassDecl.promote_eq_ok_iff.mp h with ⟨-, rfl⟩ | ⟨ctor, roles, -, -, -, rfl⟩
  · exact ⟨rfl, rfl, rfl⟩
  · exact ⟨rfl, rfl, rfl⟩

/-! ## §6 Members of an accepted class -/

/-- What is inserted into a list is seen in one run. -/
theorem filterMap_insertAt {α β : Type} (f : α → Option β) (xs : List α) (i : Nat) (new : List α) :
    (insertAt xs i new).filterMap f =
      (xs.take i).filterMap f ++ new.filterMap f ++ (xs.drop i).filterMap f := by
  simp [insertAt]

theorem filterMap_take_append_drop {α β : Type} (f : α → Option β) (xs : List α) (i : Nat) :
    (xs.take i).filterMap f ++ (xs.drop i).filterMap f = xs.filterMap f := by
  rw [← List.filterMap_append, List.take_append_drop]

theorem Member.filterMap_field?_map (fields : List FieldDecl) :
    (fields.map Member.field).filterMap Member.field? = fields := by
  rw [List.filterMap_map]
  exact List.filterMap_some

/-- Replacing a constructor keeps the fields. -/
theorem Member.field?_withCtor (new : CtorDecl) (m : Member) :
    (m.withCtor new).field? = m.field? := by
  cases m <;> rfl

/-- It puts the new constructor where there was one. -/
theorem Member.ctor?_withCtor (new : CtorDecl) (m : Member) :
    (m.withCtor new).ctor? = m.ctor?.map fun _ => new := by
  cases m <;> rfl

/-- The new fields stand together among the members. -/
theorem ClassDecl.members_promoteWith (c : ClassDecl) (options : Options) (ctor : CtorDecl)
    (ps : List (Param × Role)) : ∃ i, (c.promoteWith options ctor ps).decl.members =
      insertAt (c.members.map (Member.withCtor (ctor.promote ps (promotedFields options ps)))) i
        ((promotedFields options ps).map .field) :=
  ⟨_, rfl⟩

/-- The new fields stand in one run among the fields that the class had. -/
theorem ClassDecl.fields_promoteWith (c : ClassDecl) (options : Options) (ctor : CtorDecl)
    (ps : List (Param × Role)) :
    ∃ pre post, c.fields = pre ++ post ∧
      (c.promoteWith options ctor ps).decl.fields = pre ++ promotedFields options ps ++ post := by
  have hold (new : CtorDecl) : (c.members.map (Member.withCtor new)).filterMap Member.field? =
      c.fields := by
    rw [List.filterMap_map, ClassDecl.fields]
    exact List.filterMap_congr fun m _ => Member.field?_withCtor new m
  obtain ⟨i, hmembers⟩ := c.members_promoteWith options ctor ps
  rw [ClassDecl.fields.eq_def (c.promoteWith options ctor ps).decl, hmembers, filterMap_insertAt,
    Member.filterMap_field?_map]
  -- before and after the run there is what the class had
  refine ⟨_, _, ?_, rfl⟩
  rw [filterMap_take_append_drop, hold]

/-- Promotion replaces the constructor of a class and adds none. -/
theorem ClassDecl.ctors_promoteWith (c : ClassDecl) (options : Options) (ctor : CtorDecl)
    (ps : List (Param × Role)) : (c.promoteWith options ctor ps).decl.ctors =
      c.ctors.map fun _ => ctor.promote ps (promotedFields options ps) := by
  have hnew (fs : List FieldDecl) : (fs.map Member.field).filterMap Member.ctor? = [] := by
    rw [List.filterMap_map]
    exact List.filterMap_eq_nil_iff.mpr fun _ _ => rfl
  obtain ⟨i, hmembers⟩ := c.members_promoteWith options ctor ps
  rw [ClassDecl.ctors, hmembers, filterMap_insertAt, hnew, List.append_nil,
    filterMap_take_append_drop, List.filterMap_map, ClassDecl.ctors, List.map_filterMap]
  exact List.filterMap_congr fun m _ => Member.ctor?_withCtor _ m

/-- The fields of an accepted class: those it had, with one run of new ones in between. The names of
the new fields were not in the index, and no two of them are the same. -/
theorem ClassDecl.promote_fields {c : ClassDecl} {index : FieldIndex} {options : Options}
    {new : Promoted} (h : c.promote index options = .ok new) :
    ∃ pre fs post, c.fields = pre ++ post ∧ new.decl.fields = pre ++ fs ++ post ∧
      new.fields = fs.map FieldDecl.summary ∧ (fs.map (·.name.name)).Nodup ∧
      ∀ f ∈ fs, index.get? f.name.name = none := by
  rcases ClassDecl.promote_eq_ok_iff.mp h with ⟨-, rfl⟩ | ⟨ctor, roles, -, -, hclash, rfl⟩
  · exact ⟨c.fields, [], [], by simp, by simp, rfl, by simp, by simp⟩
  · obtain ⟨pre, post, hold, hnew⟩ := c.fields_promoteWith options ctor (ctor.params.zip roles)
    obtain ⟨hindex, hnodup⟩ := Param.clashes_eq_nil_iff.mp hclash
    rw [← map_name_promotedFields options] at hindex hnodup
    refine ⟨pre, _, post, hold, hnew, rfl, hnodup, fun f hf => ?_⟩
    exact (hindex _ (List.mem_map_of_mem hf)).1

/-- The place of a promoted field as collision checks see it. -/
def FieldSummary.site (f : FieldSummary) : FieldSite where
  name := f.name
  span := f.span

/-- New names are found wherever they are put. -/
private theorem find?_middle {pre fs post : List FieldSite}
    (h : ∀ f ∈ fs, ∀ g ∈ pre ++ post, f.name ≠ g.name) (n : String) :
    (pre ++ fs ++ post).find? (·.name == n) = (pre ++ post ++ fs).find? (·.name == n) := by
  simp only [List.find?_append]
  cases hfs : fs.find? (·.name == n) with
  | none => simp
  | some f =>
    -- then `n` is none of the old names
    have hpost : post.find? (·.name == n) = none := by
      refine List.find?_eq_none.mpr fun g hg hgn => ?_
      refine h f (List.mem_of_find?_eq_some hfs) g (List.mem_append_right pre hg) ?_
      rw [beq_iff_eq.mp hgn]
      simpa using List.find?_some hfs
    rw [hpost]
    cases pre.find? (·.name == n) <;> rfl

/-- Where a name is found in an accepted class: among the old fields first, then among the new
ones. It does not matter where the options put the new fields. -/
theorem ClassDecl.find?_sites_promote {c : ClassDecl} {index : FieldIndex} {options : Options}
    {new : Promoted} (h : c.promote index options = .ok new)
    (hown : ∀ f ∈ c.fields, index.get? f.name.name ≠ none) (n : String) :
    new.decl.sites.find? (·.name == n) =
      (c.sites ++ new.fields.map FieldSummary.site).find? (·.name == n) := by
  obtain ⟨pre, fs, post, hold, hnew, hsum, -, hindex⟩ := ClassDecl.promote_fields h
  have hsites : new.fields.map FieldSummary.site = fs.map FieldDecl.site := by
    rw [hsum, List.map_map]
    rfl
  rw [ClassDecl.sites, ClassDecl.sites, hsites, hnew, hold, List.map_append, List.map_append,
    List.map_append]
  -- the new fields have names of their own, so it does not matter that they are now in the middle
  refine find?_middle (fun x hx y hy heq => ?_) n
  rw [← List.map_append, ← hold] at hy
  obtain ⟨f, hf, rfl⟩ := List.mem_map.mp hx
  obtain ⟨g, hg, rfl⟩ := List.mem_map.mp hy
  apply hown g hg
  have hname : g.name.name = f.name.name := heq.symm
  rw [hname]
  exact hindex f hf

/-! ## §7 Classes without argument fields -/

/-- A class in which nothing is to be promoted: at most one constructor, and no modifiers on its
parameters. -/
def ClassDecl.Settled (c : ClassDecl) : Prop :=
  c.ctors.length ≤ 1 ∧ ∀ ctor ∈ c.ctors, ∀ p ∈ ctor.params, p.modifiers = []

/-- After promotion no parameter of the constructor has modifiers. -/
theorem CtorDecl.modifiers_promote {ctor : CtorDecl} {roles : List Role}
    (hroles : Param.roles ctor.params = .ok roles) (fields : List FieldDecl) {p : Param}
    (hp : p ∈ (ctor.promote (ctor.params.zip roles) fields).params) : p.modifiers = [] := by
  -- a plain parameter had no modifiers before, and an argument field has lost them
  change p ∈ (ctor.params.zip roles).map (fun pr => pr.1.afterPromotion pr.2) at hp
  obtain ⟨⟨q, r⟩, hqr, rfl⟩ := List.mem_map.mp hp
  have hrole : q.role = .ok r :=
    (List.forall₂_iff_zip.mp (Param.roles_eq_ok_iff.mp hroles)).2 hqr
  cases r with
  | plain => exact Param.role_eq_plain_iff.mp hrole
  | field c => rfl

/-- Nothing is left to be promoted in an accepted class. -/
theorem ClassDecl.settled_of_promote {c : ClassDecl} {index : FieldIndex} {options : Options}
    {new : Promoted} (h : c.promote index options = .ok new) : new.decl.Settled := by
  rcases ClassDecl.promote_eq_ok_iff.mp h with ⟨hctors, rfl⟩ | ⟨ctor, roles, hctors, hroles, -, rfl⟩
  · simp [ClassDecl.Settled, hctors]
  · rw [ClassDecl.Settled, ClassDecl.ctors_promoteWith, hctors]
    refine ⟨by simp, fun x hx p hp => ?_⟩
    obtain rfl : x = _ := by simpa using hx
    exact CtorDecl.modifiers_promote hroles _ hp

theorem insertAt_nil {α : Type} (xs : List α) (i : Nat) : insertAt xs i [] = xs := by
  simp [insertAt]

/-- A settled class is accepted as it is, whatever the index and the options are. -/
theorem ClassDecl.promote_of_settled {c : ClassDecl} (hc : c.Settled) (options : Options) :
    ∃ new, new.decl = c ∧ new.fields = [] ∧ ∀ index, c.promote index options = .ok new := by
  obtain ⟨hone, hplain⟩ := hc
  rcases hctors : c.ctors with _ | ⟨ctor, _ | ⟨extra, rest⟩⟩
  · refine ⟨{ decl := c }, rfl, rfl, fun index => ?_⟩
    exact ClassDecl.promote_eq_ok_iff.mpr (Or.inl ⟨hctors, rfl⟩)
  · have hparams : ∀ p ∈ ctor.params, p.modifiers = [] := hplain ctor (by simp [hctors])
    have hroles : Param.roles ctor.params = .ok (ctor.params.map fun _ => .plain) := by
      rw [Param.roles_eq_ok_iff, List.forall₂_map_right_iff, List.forall₂_same]
      exact fun p hp => Param.role_eq_plain_iff.mpr (hparams p hp)
    have hzip : ctor.params.zip (ctor.params.map fun _ => Role.plain) =
        ctor.params.map fun p => (p, .plain) := by
      induction ctor.params with
      | nil => rfl
      | cons p ps ih => rw [List.map_cons, List.zip_cons_cons, ih, List.map_cons]
    have hnames : candidateNames (ctor.params.map fun p => (p, .plain)) = [] := by
      rw [candidateNames, List.filterMap_map]
      exact List.filterMap_eq_nil_iff.mpr fun _ _ => rfl
    have hfields : promotedFields options (ctor.params.map fun p => (p, .plain)) = [] := by
      rw [promotedFields, List.filterMap_map]
      exact List.filterMap_eq_nil_iff.mpr fun _ _ => rfl
    -- the constructor is put back in place of itself
    have hctor : ctor.promote (ctor.params.map fun p => (p, .plain)) [] = ctor := by
      obtain ⟨params, ⟨statements, bodySpan⟩, span⟩ := ctor
      simp [CtorDecl.promote, CtorDecl.assignFields, assigning, insertAt_nil, Param.afterPromotion,
        Function.comp_def]
    have hmembers : c.members.map (Member.withCtor ctor) = c.members := by
      conv_rhs => rw [← List.map_id c.members]
      refine List.map_congr_left fun x hx => ?_
      cases x with
      | field f => rfl
      | method f => rfl
      | ctor f =>
        have hf : f ∈ c.ctors := List.mem_filterMap.mpr ⟨.ctor f, hx, rfl⟩
        obtain rfl : f = ctor := by simpa [hctors] using hf
        rfl
    refine ⟨c.promoteWith options ctor (ctor.params.zip (ctor.params.map fun _ => .plain)),
      ?_, ?_, fun index => ?_⟩
    · simp only [ClassDecl.promoteWith, hzip, hfields, hctor, hmembers, insertFields, List.map_nil,
        insertAt_nil]
      cases c
      rfl
    · simp only [ClassDecl.promoteWith, hzip, hfields, List.map_nil]
    · refine ClassDecl.promote_eq_ok_iff.mpr (Or.inr ⟨ctor, _, hctors, hroles, ?_, rfl⟩)
      rw [hzip, Param.clashes_eq_nil_iff, hnames]
      simp
  · simp [hctors] at hone

end FieldPromotion
