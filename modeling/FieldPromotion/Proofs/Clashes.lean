import FieldPromotion.Proofs.ClassPromotion

/-!
# Clashes by position

Which argument fields of a constructor have a name that is taken, and what is reported of each of them.
The check goes through the parameters and keeps the names that it has met, the taken ones too. Said by
positions there is nothing to keep: an argument field clashes with the field of its name that is in
sight, or else with the first argument field of that name before it.
-/

namespace FieldPromotion

/-! ## §1 Argument fields by position -/

/-- `CandidateAt ps roles i p`: the parameter `p` at position `i` is an argument field. There may be more
parameters than roles, or more roles than parameters; those without a partner count for nothing. -/
def CandidateAt (ps : List Param) (roles : List Role) (i : Nat) (p : Param) : Prop :=
  ps[i]? = some p ∧ ∃ c, roles[i]? = some (.field c)

/-- `ClashAt cls index ps roles i e`: the argument field at position `i` has a name that is taken, and
`e` is the error that says so. -/
inductive ClashAt (cls : String) (index : FieldIndex) (ps : List Param) (roles : List Role) (i : Nat) :
    Error → Prop
  /-- There is a field of that name in sight. -/
  | inSight {p : Param} {o : FieldOrigin} : CandidateAt ps roles i p →
      index.get? p.name.name = some o →
      ClashAt cls index ps roles i (.duplicateField p.name.name o.className o.span p.name.span)
  /-- There is none, but an argument field before it has that name; `q` is the first one. -/
  | repeated {p q : Param} {j : Nat} : CandidateAt ps roles i p → index.get? p.name.name = none →
      j < i → CandidateAt ps roles j q → q.name.name = p.name.name →
      (∀ k < j, ∀ r, CandidateAt ps roles k r → r.name.name ≠ p.name.name) →
      ClashAt cls index ps roles i (.duplicateField p.name.name cls q.name.span p.name.span)

variable {cls : String} {index : FieldIndex} {ps : List Param} {roles : List Role} {i : Nat}
  {p : Param} {e : Error}

theorem candidateAt_iff :
    CandidateAt ps roles i p ↔ ∃ c, (ps.zip roles)[i]? = some (p, .field c) := by
  simp only [CandidateAt, List.getElem?_zip_eq_some]
  exact exists_and_left.symm

theorem ClashAt.lt_length (h : ClashAt cls index ps roles i e) : i < (ps.zip roles).length := by
  have hcandidate : ∃ p, CandidateAt ps roles i p := by
    cases h with
    | inSight hp _ => exact ⟨_, hp⟩
    | repeated hp _ _ _ _ _ => exact ⟨_, hp⟩
  obtain ⟨p, hp⟩ := hcandidate
  obtain ⟨c, hc⟩ := candidateAt_iff.mp hp
  exact (List.getElem?_eq_some_iff.mp hc).1

namespace Param

/-! ## §2 Names that were met -/

/-- The name of an argument field and where it stands. -/
def nameSite? (pr : Param × Role) : Option (String × Span) :=
  pr.2.candidate?.map fun _ => (pr.1.name.name, pr.1.name.span)

/-- Where a parameter stands that is an argument field of the given name. -/
def standing? (name : String) (pr : Param × Role) : Option Span :=
  (nameSite? pr).bind fun x => if x.1 = name then some x.2 else none

theorem standing?_eq_some_iff {name : String} {r : Role} {s : Span} :
    standing? name (p, r) = some s ↔ (∃ c, r = .field c) ∧ p.name.name = name ∧ p.name.span = s := by
  cases r with
  | plain => simp [standing?, nameSite?, Role.candidate?]
  | field c => simp [standing?, nameSite?, Role.candidate?]

theorem standing?_eq_none_iff {name : String} {r : Role} :
    standing? name (p, r) = none ↔ ∀ c, r = .field c → p.name.name ≠ name := by
  cases r with
  | plain => simp [standing?, nameSite?, Role.candidate?]
  | field c => simp [standing?, nameSite?, Role.candidate?]

theorem lookup_entries (xs : List (Param × Role)) (name : String) :
    (xs.filterMap nameSite?).lookup name = xs.findSome? (standing? name) := by
  induction xs with
  | nil => rfl
  | cons pr xs ih =>
    rw [List.findSome?_cons, ← ih, standing?]
    cases hpr : nameSite? pr with
    | none => rw [List.filterMap_cons_none hpr, Option.bind_none]
    | some x =>
      rw [List.filterMap_cons_some hpr, List.lookup_cons, Option.bind_some]
      by_cases hx : x.1 = name
      · simp [hx]
      · simp [hx, beq_eq_false_iff_ne.mpr (Ne.symm hx)]

/-- A name is found where the first argument field of that name stands. -/
theorem lookup_entries_take_eq_some_iff {name : String} {s : Span} :
    (((ps.zip roles).take i).filterMap nameSite?).lookup name = some s ↔ ∃ j q, j < i ∧
      CandidateAt ps roles j q ∧ q.name.name = name ∧ q.name.span = s ∧
      ∀ k < j, ∀ r, CandidateAt ps roles k r → r.name.name ≠ name := by
  -- both sides speak about the first place with the name, once among the pairs and once among the
  -- argument fields
  rw [lookup_entries, findSome?_eq_some_iff_getElem?]
  simp only [List.getElem?_take, Option.ite_none_right_eq_some, candidateAt_iff]
  constructor
  · intro h
    obtain ⟨j, ⟨q, r⟩, ⟨hj, hq⟩, hstands, hfirst⟩ := h
    obtain ⟨⟨c, rfl⟩, hname, hspan⟩ := standing?_eq_some_iff.mp hstands
    refine ⟨j, q, hj, ⟨c, hq⟩, hname, hspan, ?_⟩
    intro k hk r hr
    obtain ⟨d, hd⟩ := hr
    exact standing?_eq_none_iff.mp (hfirst k hk _ ⟨Nat.lt_trans hk hj, hd⟩) d rfl
  · intro h
    obtain ⟨j, q, hj, ⟨c, hq⟩, hname, hspan, hfirst⟩ := h
    refine ⟨j, _, ⟨hj, hq⟩, standing?_eq_some_iff.mpr ⟨⟨c, rfl⟩, hname, hspan⟩, ?_⟩
    intro k hk y hy
    obtain ⟨r, role⟩ := y
    apply standing?_eq_none_iff.mpr
    intro d hd
    subst hd
    exact hfirst k hk r ⟨d, hy.2⟩

/-! ## §3 One parameter after the other -/

/-- The error of a parameter that comes after some others. -/
def clashAfter? (cls : String) (index : FieldIndex) (before : List (Param × Role))
    (pr : Param × Role) : Option Error :=
  pr.2.candidate?.bind fun _ => pr.1.clash? cls index (before.filterMap nameSite?)

/-- One step of the check: the error of the first parameter, and then those of the others. -/
theorem clashes_cons (before : List (Param × Role)) (pr : Param × Role) (xs : List (Param × Role)) :
    clashes cls index (before.filterMap nameSite?) (pr :: xs) =
      (clashAfter? cls index before pr).toList ++
        clashes cls index ((before ++ [pr]).filterMap nameSite?) xs := by
  obtain ⟨p, r⟩ := pr
  rw [List.filterMap_append]
  cases r with
  | plain =>
    rw [List.filterMap_cons_none rfl, List.filterMap_nil, List.append_nil]
    rfl
  | field c => rfl

/-- The whole check: each parameter is compared with those before it. -/
theorem clashes_eq_filterMap_range (cls : String) (index : FieldIndex)
    (before xs : List (Param × Role)) :
    clashes cls index (before.filterMap nameSite?) xs = (List.range xs.length).filterMap fun i =>
      xs[i]?.bind (clashAfter? cls index (before ++ xs.take i)) := by
  -- the parameters that were gone through move from one list to the other
  induction xs generalizing before with
  | nil => rfl
  | cons pr xs ih =>
    -- from the second parameter on, the places are counted one lower
    have hrest : ((List.range xs.length).map Nat.succ).filterMap (fun i =>
        (pr :: xs)[i]?.bind (clashAfter? cls index (before ++ (pr :: xs).take i))) =
        (List.range xs.length).filterMap fun i =>
          xs[i]?.bind (clashAfter? cls index ((before ++ [pr]) ++ xs.take i)) := by
      rw [List.filterMap_map]
      apply List.filterMap_congr
      intro i _
      simp
    rw [clashes_cons, ih, List.length_cons, List.range_succ_eq_map, ← hrest]
    simp only [List.filterMap_cons, List.getElem?_cons_zero, Option.bind_some, List.take_zero,
      List.append_nil]
    cases clashAfter? cls index before pr with
    | none => rfl
    | some e => rfl

/-- The error of the parameter at a position. -/
def clashAt? (cls : String) (index : FieldIndex) (ps : List Param) (roles : List Role) (i : Nat) :
    Option Error :=
  (ps.zip roles)[i]?.bind (clashAfter? cls index ((ps.zip roles).take i))

/-- Only an argument field has an error, and it depends on the names before it. -/
theorem clashAt?_eq_some_iff_candidate : clashAt? cls index ps roles i = some e ↔
    ∃ p, CandidateAt ps roles i p ∧
      p.clash? cls index (((ps.zip roles).take i).filterMap nameSite?) = some e := by
  simp only [clashAt?, candidateAt_iff, Option.bind_eq_some_iff, Prod.exists]
  constructor
  · intro h
    obtain ⟨p, r, hp, hclash⟩ := h
    cases r with
    | plain => cases hclash
    | field c => exact ⟨p, ⟨c, hp⟩, hclash⟩
  · intro h
    obtain ⟨p, ⟨c, hp⟩, hclash⟩ := h
    exact ⟨p, .field c, hp, hclash⟩

/-- The parameter at a position has an error exactly if its name is taken. -/
theorem clashAt?_eq_some_iff :
    clashAt? cls index ps roles i = some e ↔ ClashAt cls index ps roles i e := by
  rw [clashAt?_eq_some_iff_candidate]
  constructor
  · intro h
    obtain ⟨p, hp, hclash⟩ := h
    unfold clash? at hclash
    -- a field in sight comes first, and only without one do the earlier parameters count
    cases hindex : index.get? p.name.name with
    | some o =>
      rw [hindex] at hclash
      obtain rfl := Option.some.inj hclash
      exact .inSight hp hindex
    | none =>
      rw [hindex] at hclash
      cases hlookup : (((ps.zip roles).take i).filterMap nameSite?).lookup p.name.name with
      | none =>
        rw [hlookup] at hclash
        cases hclash
      | some s =>
        rw [hlookup] at hclash
        obtain ⟨j, q, hj, hq, hname, rfl, hfirst⟩ := lookup_entries_take_eq_some_iff.mp hlookup
        obtain rfl := Option.some.inj hclash
        exact .repeated hp hindex hj hq hname hfirst
  · intro h
    cases h with
    | @inSight p o hp hindex => exact ⟨p, hp, by rw [clash?, hindex]⟩
    | @repeated p q j hp hindex hj hq hname hfirst =>
      have hlookup := lookup_entries_take_eq_some_iff.mpr ⟨j, q, hj, hq, hname, rfl, hfirst⟩
      exact ⟨p, hp, by rw [clash?, hindex, hlookup]⟩

/-! ## §4 All clashes -/

theorem clashes_eq_filterMap_clashAt? (cls : String) (index : FieldIndex) (ps : List Param)
    (roles : List Role) : clashes cls index [] (ps.zip roles) =
      (List.range (ps.zip roles).length).filterMap (clashAt? cls index ps roles) :=
  clashes_eq_filterMap_range cls index [] (ps.zip roles)

theorem mem_clashes_iff :
    e ∈ clashes cls index [] (ps.zip roles) ↔ ∃ i, ClashAt cls index ps roles i e := by
  simp only [clashes_eq_filterMap_clashAt?, List.mem_filterMap, List.mem_range,
    clashAt?_eq_some_iff]
  constructor
  · intro h
    obtain ⟨i, -, hi⟩ := h
    exact ⟨i, hi⟩
  · intro h
    obtain ⟨i, hi⟩ := h
    exact ⟨i, hi.lt_length, hi⟩

/-- The errors of a check, each beside the position of its argument field. -/
theorem exists_positions (cls : String) (index : FieldIndex) (ps : List Param) (roles : List Role) :
    ∃ positions : List Nat, positions.Pairwise (· < ·) ∧
      (∀ i, i ∈ positions ↔ ∃ e, ClashAt cls index ps roles i e) ∧
      List.Forall₂ (ClashAt cls index ps roles) positions
        (clashes cls index [] (ps.zip roles)) := by
  -- a list of clashes is made by going through all places, and those without one leave nothing
  -- behind
  have hall := forall₂_filterMap (clashAt? cls index ps roles) (List.range (ps.zip roles).length)
  rw [← clashes_eq_filterMap_clashAt?] at hall
  simp only [clashAt?_eq_some_iff] at hall
  refine ⟨_, List.pairwise_lt_range.filter _, ?_, hall⟩
  intro i
  simp only [List.mem_filter, List.mem_range, Option.isSome_iff_exists, clashAt?_eq_some_iff]
  constructor
  · intro h
    exact h.2
  · intro h
    obtain ⟨e, he⟩ := h
    exact ⟨he.lt_length, e, he⟩

/-- The check gives one error for each argument field whose name is taken, in the order of the parameters,
and none for any other parameter. So there is no error exactly if all argument fields have names of their
own that are not in sight. -/
theorem clashes_by_position (cls : String) (index : FieldIndex) (ps : List Param)
    (roles : List Role) :
    (∃ positions : List Nat, positions.Pairwise (· < ·) ∧
      (∀ i, i ∈ positions ↔ ∃ e, ClashAt cls index ps roles i e) ∧
      List.Forall₂ (ClashAt cls index ps roles) positions
        (clashes cls index [] (ps.zip roles))) ∧
    (clashes cls index [] (ps.zip roles) = [] ↔ (candidateNames (ps.zip roles)).Nodup ∧
      ∀ name ∈ candidateNames (ps.zip roles), index.get? name = none) := by
  refine ⟨exists_positions cls index ps roles, ?_⟩
  rw [clashes_eq_nil_iff, and_comm]
  simp

end Param

end FieldPromotion
