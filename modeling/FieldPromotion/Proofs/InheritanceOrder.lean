import FieldPromotion.Proofs.Registration
import FieldPromotion.Proofs.Standing

/-!
# The inheritance order of a module

How the classes of a module stand in the table, in terms of the hierarchy: a class is scheduled when
it has a chain, cyclic when it is on a loop, and blocked otherwise. A blocked class is reported when
there is no class of the module above it. The errors that follow from the table alone are those of
the hierarchy, in the same order.
-/

namespace FieldPromotion

namespace Module

variable {m : Module} {hosts : List HostClass} {id a : ClassId} {n : String} {w : Meaning}
  {d e : Declared}

/-! ## §1 Standing -/

/-- Above a class without chain there is a loop. -/
theorem exists_cycle_above (hw : (m.roster hosts)[id]? = some w)
    (h : ¬ ∃ ns, m.Chain hosts w.superclass ns) :
    ∃ n w', m.Above hosts w.superclass n ∧ m.meaning hosts n = some w' ∧
      m.Above hosts w'.superclass n := by
  have hid := lt_table_size hw
  -- without a chain the walk through the table does not end, and in a finite table it has to come
  -- round
  have hnever : ∀ k, (m.table hosts).climb k (some id) ≠ none := by
    intro k hk
    refine h ((length_ancestors_table_lt_iff hw).mp ?_)
    exact (ClassTable.length_ancestors_lt_iff table_closed hid).mpr ⟨k, hk⟩
  obtain ⟨a, ha, hself⟩ := (ClassTable.exists_loop_iff table_closed hid).mpr hnever
  rw [← ClassTable.mem_ancestors_iff_inherits table_closed hid] at ha
  obtain ⟨n, habove, hn⟩ := (mem_ancestors_table hw).mp ha
  obtain ⟨w', hw', hr⟩ := meaning_of_lookup hn
  -- the loop of classes is a loop of names, since a name leads to one class only
  rw [← ClassTable.mem_ancestors_iff_inherits table_closed (lt_table_size hr)] at hself
  obtain ⟨n', habove', hn'⟩ := (mem_ancestors_table hr).mp hself
  obtain ⟨w'', hw'', hr'⟩ := meaning_of_lookup hn'
  rw [hr, Option.some.injEq] at hr'
  subst hr'
  obtain rfl : n' = n := (name_of_meaning hw'').symm.trans (name_of_meaning hw')
  exact ⟨n', w', habove, hw', habove'⟩

/-- A class without chain is on a loop, or leads into one of the host, or has a class of the module
above it that is or does. -/
theorem exists_looping (hd : d ∈ m.declared) (h : ¬ ∃ ns, m.Chain hosts d.superclass ns) :
    ∃ e ∈ m.declared, (m.OnCycle hosts e ∨ m.LeadsToHostCycle hosts e) ∧
      (e = d ∨ ∃ n, m.Above hosts d.superclass n ∧ m.declaration? n = some e) := by
  obtain ⟨id, hid⟩ := exists_roster hosts hd
  obtain ⟨n, w, habove, hw, hloop⟩ := exists_cycle_above hid h
  by_cases hhost : ∀ k, m.Above hosts w.superclass k → m.declaration? k = none
  · -- the loop is one of the host
    rcases habove.leadsToHostCycle hw hloop hhost with hnone | ⟨k, e, hk, he, hlead⟩
    · exact ⟨d, hd, Or.inr ⟨⟨n, w, habove, hw, hloop⟩, hnone⟩, Or.inl rfl⟩
    · exact ⟨e, mem_of_declaration? he, Or.inr hlead, Or.inr ⟨k, hk, he⟩⟩
  · -- some class of the module is on the loop
    push Not at hhost
    obtain ⟨k, hk, hne⟩ := hhost
    obtain ⟨e, he⟩ := Option.ne_none_iff_exists'.mp hne
    have hname := name_of_declaration? he
    have hself : m.Above hosts e.superclass k := by
      rcases hloop.back_of_loop hw hk hloop (meaning_own hosts he) with rfl | hback
      · rw [meaning_own hosts he, Option.some.injEq] at hw
        rw [← hw] at hloop
        exact hloop
      · exact hback.trans hw hk
    refine ⟨e, mem_of_declaration? he, Or.inl ⟨?_, ?_⟩, Or.inr ⟨k, habove.trans hw hk, he⟩⟩
    · rw [hname]
      exact he
    · rw [hname]
      exact hself

/-- A class has a depth when it has a chain, whose length is the depth. -/
theorem standing_rooted_iff {k : Nat} (hw : (m.roster hosts)[id]? = some w) :
    (m.table hosts).standing id = .rooted k ↔
      ∃ ns, m.Chain hosts w.superclass ns ∧ ns.length = k := by
  rw [ClassTable.standing_eq_rooted_iff, length_ancestors_table_lt_iff hw]
  constructor
  · rintro ⟨⟨ns, hns⟩, rfl⟩
    exact ⟨ns, hns, (length_ancestors_table hw hns).symm⟩
  · rintro ⟨ns, hns, rfl⟩
    exact ⟨⟨ns, hns⟩, length_ancestors_table hw hns⟩

/-- A class is on a loop of parents when it is on a cycle of names. -/
theorem standing_cyclic_iff (hd : (m.roster hosts)[id]? = some (.own d)) :
    (m.table hosts).standing id = .cyclic ↔ m.OnCycle hosts d := by
  have hid := lt_table_size hd
  rw [ClassTable.standing_eq_cyclic_iff table_closed hid, OnCycle, ← lookup_own_iff hd,
    ← ClassTable.mem_ancestors_iff table_closed hid, mem_ancestors_table hd]
  constructor
  · rintro ⟨n, habove, hn⟩
    obtain ⟨w, hw, hr⟩ := meaning_of_lookup hn
    rw [hd, Option.some.injEq] at hr
    subst hr
    obtain rfl : d.name = n := name_of_meaning hw
    exact ⟨hn, habove⟩
  · rintro ⟨hn, habove⟩
    exact ⟨d.name, habove, hn⟩

/-- A class is blocked when its chain does not end and it is on no cycle itself. -/
theorem standing_blocked_iff (hd : (m.roster hosts)[id]? = some (.own d)) :
    (m.table hosts).standing id = .blocked ↔
      (¬ ∃ ns, m.Chain hosts d.superclass ns) ∧ ¬ m.OnCycle hosts d := by
  rw [← standing_cyclic_iff hd]
  cases hs : (m.table hosts).standing id with
  | rooted k =>
    obtain ⟨ns, hns, -⟩ := (standing_rooted_iff hd).mp hs
    simp only [reduceCtorEq, false_iff]
    exact fun h => h.1 ⟨ns, hns⟩
  | cyclic => simp
  | blocked =>
    simp only [reduceCtorEq, not_false_eq_true, and_true, true_iff]
    rintro ⟨ns, hns⟩
    rw [(standing_rooted_iff hd).mpr ⟨ns, hns, rfl⟩] at hs
    cases hs

/-! ## §2 Module classes by standing -/

theorem statement_table (id : ClassId) :
    ((m.table hosts).get? id).bind ClassEntry.statement =
      ((m.roster hosts)[id]?).bind fun w => w.entry.statement := by
  rw [table_get?]
  cases (m.roster hosts)[id]? <;> rfl

/-- The entry of a declared class has its position. -/
theorem statement_own (hd : (m.roster hosts)[id]? = some (.own d)) :
    ((m.table hosts).get? id).bind ClassEntry.statement = some d.position := by
  rw [statement_table, hd]
  rfl

/-- An entry with a position is that of a declared class. -/
theorem own_of_statement {i : Nat}
    (h : ((m.table hosts).get? id).bind ClassEntry.statement = some i) :
    ∃ d, (m.roster hosts)[id]? = some (.own d) ∧ d.position = i := by
  rw [statement_table] at h
  obtain ⟨w, hw, hi⟩ := Option.bind_eq_some_iff.mp h
  cases w with
  | own d => exact ⟨d, hw, by simpa [Meaning.entry, ClassDecl.entry] using hi⟩
  | host x => cases hi

theorem roster_add (k : Nat) :
    (m.roster hosts)[hosts.length + k]? = (m.declared[k]?).map .own := by
  rw [roster, List.getElem?_append_right (by simp), List.length_map, Nat.add_sub_cancel_left,
    List.getElem?_map]

theorem roster_of_lt (h : id < hosts.length) :
    (m.roster hosts)[id]? = (hosts[id]?).map .host := by
  rw [roster, List.getElem?_append_left (by simpa using h), List.getElem?_map]

/-- The classes of the module are the declared ones. -/
theorem inModule_iff :
    (m.table hosts).InModule id ↔ ∃ d, (m.roster hosts)[id]? = some (.own d) := by
  constructor
  · intro h
    obtain ⟨i, hi⟩ := Option.isSome_iff_exists.mp h
    obtain ⟨d, hd, -⟩ := own_of_statement hi
    exact ⟨d, hd⟩
  · intro h
    obtain ⟨d, hd⟩ := h
    rw [ClassTable.InModule, statement_own hd]
    rfl

/-- The listed classes are declared classes with a standing of the kind asked for. -/
theorem mem_moduleClasses_iff {p : Standing → Bool} : id ∈ (m.table hosts).moduleClasses p ↔
    ∃ d, (m.roster hosts)[id]? = some (.own d) ∧ p ((m.table hosts).standing id) = true := by
  rw [ClassTable.mem_moduleClasses_iff, inModule_iff, exists_and_right]

/-- The classes of the host come first in the table, so the module classes of some standing are
those of the module in source order. -/
theorem moduleClasses_eq (p : Standing → Bool) : (m.table hosts).moduleClasses p =
    ((List.range m.declared.length).filter fun k =>
      p ((m.table hosts).standing (hosts.length + k))).map (hosts.length + ·) := by
  have hsize : (m.table hosts).size = hosts.length + m.declared.length := by simp [roster]
  rw [ClassTable.moduleClasses, hsize, List.range_add, List.filter_append]
  -- a class of the host has no statement
  have hhost : (List.range hosts.length).filter (fun id =>
      (((m.table hosts).get? id).bind ClassEntry.statement).isSome &&
        p ((m.table hosts).standing id)) = [] := by
    refine List.filter_eq_nil_iff.mpr fun id hid => ?_
    have hlt : id < hosts.length := List.mem_range.mp hid
    rw [statement_table, roster_of_lt hlt]
    simp [hlt, Meaning.entry]
  rw [hhost, List.nil_append, List.filter_map]
  refine congrArg _ (List.filter_congr fun k hk => ?_)
  have hlt : k < m.declared.length := List.mem_range.mp hk
  simp [Function.comp, statement_table, roster_add, hlt, Meaning.entry, ClassDecl.entry]

/-- A selection of positions, read off the listed items. -/
private theorem map_filter_range {α β : Type} {xs : List α} {f : Nat → Bool} {F : α → Bool}
    {g : Nat → β} {G : α → β} (h : ∀ k x, xs[k]? = some x → f k = F x ∧ g k = G x) :
    ((List.range xs.length).filter f).map g = (xs.filter F).map G := by
  induction xs using List.reverseRecOn with
  | nil => rfl
  | append_singleton xs x ih =>
    have hx := h xs.length x (by simp)
    have hxs := ih fun k y hk =>
      h k y (by rw [List.getElem?_append_left (List.getElem?_eq_some_iff.mp hk).1, hk])
    rw [List.length_append, List.length_singleton, List.range_succ, List.filter_append,
      List.map_append, List.filter_append, List.map_append, hxs]
    cases hF : F x <;> simp [hx.1, hx.2, hF]

/-- Going through the table by standing is going through the declared classes, if what is asked of
the entries is asked of the classes. -/
theorem map_filter_moduleClasses {β : Type} {p : Standing → Bool} {f : ClassId → Bool}
    {F : Declared → Bool} {g : ClassId → β} {G : Declared → β}
    (h : ∀ id d, (m.roster hosts)[id]? = some (.own d) →
      (f id && p ((m.table hosts).standing id)) = F d ∧ g id = G d) :
    (((m.table hosts).moduleClasses p).filter f).map g = (m.declared.filter F).map G := by
  rw [moduleClasses_eq, List.filter_map, List.filter_filter, List.map_map]
  refine map_filter_range fun k d hk => ?_
  exact h (hosts.length + k) d (by rw [roster_add, hk]; rfl)

/-! ## §3 Errors that follow from the table -/

theorem nameOf_own (hd : (m.roster hosts)[id]? = some (.own d)) :
    (m.table hosts).nameOf id = d.name := by
  simp [ClassTable.nameOf, table_get?, hd, Meaning.name]

theorem spanOf_own (hd : (m.roster hosts)[id]? = some (.own d)) :
    (m.table hosts).spanOf id = d.decl.name.span := by
  simp [ClassTable.spanOf, table_get?, hd, Meaning.entry, ClassDecl.entry]

/-- Where the first class of a name stands. -/
private theorem exists_first_index {k : Nat} (hk : m.declared[k]? = some d) :
    ∃ j first, m.declared.findIdx? (·.name == d.name) = some j ∧ m.declared[j]? = some first ∧
      m.declaration? d.name = some first ∧ (j < k ↔ first.position < d.position) ∧
      (first.position < d.position ↔ first ≠ d) := by
  have hmem : d ∈ m.declared := List.mem_of_getElem? hk
  obtain ⟨first, hfirst⟩ := declaration?_isSome hmem
  have hfind := hfirst
  rw [declaration?, List.find?_eq_bind_findIdx?_getElem?] at hfind
  obtain ⟨j, hj, hjf⟩ := Option.bind_eq_some_iff.mp hfind
  refine ⟨j, first, hj, hjf, hfirst, ?_⟩
  obtain ⟨hjlt, rfl⟩ := List.getElem?_eq_some_iff.mp hjf
  obtain ⟨hklt, rfl⟩ := List.getElem?_eq_some_iff.mp hk
  -- nothing before `j` has the name, so `j` is not after `k`
  have hle : j ≤ k := by
    by_contra hkj
    have := (List.findIdx?_eq_some_iff_getElem.mp hj).2.2 k (by omega)
    simp at this
  have hincr := List.pairwise_iff_getElem.mp m.pairwise_declared
  rcases Nat.lt_or_eq_of_le hle with hlt | rfl
  · have hpos := hincr j k hjlt hklt hlt
    refine ⟨by simp [hlt, hpos], by simp only [hpos, true_iff]; intro heq; rw [heq] at hpos; omega⟩
  · simp

/-- The pairs of a first declaration and a repeat, by the classes of the module. -/
theorem repeatPairs_eq (base : Nat) :
    ClassTable.repeatPairs base (m.declared.map fun d => (Meaning.own d).entry) =
      m.declared.zipIdx.filterMap fun x => (m.declared.findIdx? (·.name == x.1.name)).bind fun j =>
        if j < x.2 then some (base + j, base + x.2) else none := by
  rw [ClassTable.repeatPairs, List.zipIdx_map, List.filterMap_map]
  simp only [List.findIdx?_map, Function.comp_def, Meaning.entry_name, Prod.map]
  rfl

/-- Where the first class of a name stands among the classes of the module. -/
theorem findIdx?_of_declaration? {first : Declared} {j : Nat} (hj : m.declared[j]? = some first)
    (hfirst : m.declaration? n = some first) : m.declared.findIdx? (·.name == n) = some j := by
  rw [declaration?, List.find?_eq_bind_findIdx?_getElem?] at hfirst
  obtain ⟨i, hi, hif⟩ := Option.bind_eq_some_iff.mp hfirst
  -- no class is listed twice
  have hlt := (List.getElem?_eq_some_iff.mp hif).1
  rw [hi, (List.getElem?_inj hlt m.nodup_declared).mp (hif.trans hj.symm)]

/-- The first class of a name stands before the others. -/
theorem lt_of_repeat {first : Declared} {j k : Nat} (hj : m.declared[j]? = some first)
    (hk : m.declared[k]? = some d) (hfirst : m.declaration? d.name = some first)
    (hne : first ≠ d) : j < k := by
  have hidx := (List.findIdx?_eq_some_iff_getElem.mp (findIdx?_of_declaration? hj hfirst)).2.2
  obtain ⟨hklt, rfl⟩ := List.getElem?_eq_some_iff.mp hk
  have hle : j ≤ k := by
    by_contra hkj
    have := hidx k (Nat.lt_of_not_le hkj)
    simp at this
  refine Nat.lt_of_le_of_ne hle ?_
  intro heq
  rw [heq, hk] at hj
  exact hne (Option.some.inj hj).symm

/-- Each class that is not the first of its name is paired with the first one. -/
theorem mem_repeatPairs_iff {base : Nat} {p : ClassId × ClassId} :
    p ∈ ClassTable.repeatPairs base (m.declared.map fun d => (Meaning.own d).entry) ↔
      ∃ j k first d, m.declared[j]? = some first ∧ m.declared[k]? = some d ∧
        p = (base + j, base + k) ∧ m.declaration? d.name = some first ∧ first ≠ d := by
  simp only [repeatPairs_eq, List.mem_filterMap, Prod.exists, List.mk_mem_zipIdx_iff_getElem?]
  constructor
  · intro h
    obtain ⟨d, k, hk, hpair⟩ := h
    obtain ⟨j, first, hj, hjf, hfirst, hlt, hne⟩ := exists_first_index hk
    simp only [hj, Option.bind_some, Option.ite_none_right_eq_some, Option.some.injEq] at hpair
    exact ⟨j, k, first, d, hjf, hk, hpair.2.symm, hfirst, hne.mp (hlt.mp hpair.1)⟩
  · intro h
    obtain ⟨j, k, first, d, hjf, hk, rfl, hfirst, hne⟩ := h
    refine ⟨d, k, hk, ?_⟩
    simp [findIdx?_of_declaration? hjf hfirst, lt_of_repeat hjf hk hfirst hne]

/-- The positions of the repeats in the table. -/
theorem mem_duplicates_iff : id ∈ (m.table hosts).duplicates.map Prod.snd ↔
    ∃ d, (m.roster hosts)[id]? = some (.own d) ∧ m.declaration? d.name ≠ some d := by
  simp only [table_duplicates, List.mem_map, mem_repeatPairs_iff]
  constructor
  · intro h
    obtain ⟨p, ⟨j, k, first, d, -, hk, rfl, hfirst, hne⟩, rfl⟩ := h
    refine ⟨d, roster_own_iff.mpr ⟨k, rfl, hk⟩, ?_⟩
    rw [hfirst]
    exact fun heq => hne (Option.some.inj heq)
  · intro h
    obtain ⟨d, hd, hrep⟩ := h
    obtain ⟨k, rfl, hk⟩ := roster_own_iff.mp hd
    -- there is a first class of the name, and it is another one
    obtain ⟨j, first, -, hjf, hfirst, -⟩ := exists_first_index hk
    refine ⟨_, ⟨j, k, first, d, hjf, hk, rfl, hfirst, ?_⟩, rfl⟩
    intro heq
    exact hrep (by rw [hfirst, heq])

/-- The table reports the repeats of the module. -/
theorem duplicateErrors_table : (m.table hosts).duplicateErrors = m.repeatErrors := by
  have hrep : m.repeatErrors = m.declared.zipIdx.filterMap fun x => m.repeatError? x.1 := by
    rw [← Function.comp_def, ← List.filterMap_map, List.zipIdx_map_fst]
    rfl
  rw [ClassTable.duplicateErrors, table_duplicates, repeatPairs_eq, List.map_filterMap, hrep]
  refine List.filterMap_congr fun x hx => ?_
  have hk := List.mem_zipIdx_iff_getElem?.mp hx
  obtain ⟨j, first, hj, hjf, hfirst, hlt, -⟩ := exists_first_index hk
  simp only [repeatError?, hj, hfirst, Option.bind_some, hlt]
  have hd : (m.roster hosts)[hosts.length + x.2]? = some (.own x.1) := by rw [roster_add, hk]; rfl
  have hf : (m.roster hosts)[hosts.length + j]? = some (.own first) := by rw [roster_add, hjf]; rfl
  by_cases hpos : first.position < x.1.position
  · simp [hpos, nameOf_own hd, spanOf_own hd, spanOf_own hf]
  · simp [hpos]

/-- A blocked class is passed over when there is another class of the module above it. -/
theorem isCovered_iff (hd : (m.roster hosts)[id]? = some (.own d))
    (hb : ¬ ∃ ns, m.Chain hosts d.superclass ns) :
    (m.table hosts).isCovered (m.table hosts).inheritanceOrder id = true ↔
      ∃ n e, m.Above hosts d.superclass n ∧ m.declaration? n = some e := by
  simp only [ClassTable.isCovered, List.any_eq_true, Bool.or_eq_true, List.contains_iff_mem,
    ClassTable.cycles_eq table_closed, ClassTable.blocked_eq table_closed, mem_moduleClasses_iff]
  constructor
  · rintro ⟨a, ha, hown⟩
    obtain ⟨n, habove, hn⟩ := (mem_ancestors_table hd).mp ha
    obtain ⟨e, he⟩ : ∃ e, (m.roster hosts)[a]? = some (.own e) := by
      rcases hown with ⟨e, he, -⟩ | ⟨e, he, -⟩ <;> exact ⟨e, he⟩
    obtain ⟨w, hw, hr⟩ := meaning_of_lookup hn
    rw [he, Option.some.injEq] at hr
    subst hr
    exact ⟨n, e, habove, declaration?_of_meaning_own hw⟩
  · rintro ⟨n, e, habove, hn⟩
    have hmean := meaning_own hosts hn
    obtain ⟨a, ha, hr⟩ := lookup_of_meaning hmean
    refine ⟨a, (mem_ancestors_table hd).mpr ⟨n, habove, ha⟩, ?_⟩
    -- a chain above `e` would be one above `d`
    cases hs : (m.table hosts).standing a with
    | rooted k =>
      obtain ⟨ks, hks, -⟩ := (standing_rooted_iff hr).mp hs
      exact absurd (habove.exists_chain hmean hks) hb
    | cyclic => exact Or.inl ⟨e, hr, rfl⟩
    | blocked => exact Or.inr ⟨e, hr, rfl⟩

/-- A blocked class leads into a loop of the host when no class of the module above it is
reported. -/
theorem leadsToHostCycle_iff (hd : (m.roster hosts)[id]? = some (.own d)) :
    m.LeadsToHostCycle hosts d ↔ (m.table hosts).standing id = .blocked ∧
      (m.table hosts).isCovered (m.table hosts).inheritanceOrder id = false := by
  rw [standing_blocked_iff hd]
  constructor
  · intro h
    obtain ⟨n, w, habove, hw, hloop⟩ := h.1
    -- a class below a loop has no chain
    have hb : ¬ ∃ ns, m.Chain hosts d.superclass ns := by
      rintro ⟨ns, hns⟩
      exact hns.not_cycle habove hw hloop
    refine ⟨⟨hb, h.not_onCycle⟩, ?_⟩
    rw [← Bool.not_eq_true, isCovered_iff hd hb]
    rintro ⟨k, e, hk, he⟩
    rw [h.2 k hk] at he
    cases he
  · rintro ⟨⟨hb, -⟩, hcov⟩
    refine ⟨exists_cycle_above hd hb, fun n habove => ?_⟩
    -- a class of the module above it would be reported in its place
    cases hn : m.declaration? n with
    | none => rfl
    | some e =>
      rw [(isCovered_iff hd hb).mpr ⟨n, e, habove, hn⟩] at hcov
      cases hcov

/-- The table reports the loops of the hierarchy. -/
theorem cyclicErrors_table :
    (m.table hosts).cyclicErrors (m.table hosts).inheritanceOrder = m.loopErrors hosts := by
  classical
  -- all classes on a loop are reported, so the list is filtered by nothing
  have hcycles : (m.table hosts).inheritanceOrder.cycles =
      ((m.table hosts).moduleClasses (· == .cyclic)).filter fun _ => true := by
    rw [ClassTable.cycles_eq table_closed]
    exact (List.filter_true _).symm
  rw [ClassTable.cyclicErrors, loopErrors, List.map_append, List.map_append, hcycles,
    ClassTable.blocked_eq table_closed]
  have herror : ∀ id d, (m.roster hosts)[id]? = some (.own d) →
      (m.table hosts).cyclicError id = .cyclicInheritance d.name d.decl.name.span := by
    intro id d hd
    rw [ClassTable.cyclicError, nameOf_own hd, spanOf_own hd]
  congr 1
  · refine map_filter_moduleClasses fun id d hd => ⟨?_, herror id d hd⟩
    rw [Bool.true_and, Bool.eq_iff_iff, beq_iff_eq, decide_eq_true_iff]
    exact standing_cyclic_iff hd
  · refine map_filter_moduleClasses fun id d hd => ⟨?_, herror id d hd⟩
    rw [Bool.eq_iff_iff, Bool.and_eq_true, Bool.not_eq_true', beq_iff_eq, decide_eq_true_iff,
      leadsToHostCycle_iff hd, and_comm]

/-- The classes that are left as they are before any class is looked at: repeats, and classes
without chain. -/
theorem mem_failed_start_iff : id ∈ (m.start (ClassTable.ofHost hosts)).failed ↔
    ∃ d, (m.roster hosts)[id]? = some (.own d) ∧
      ¬ (m.declaration? d.name = some d ∧ ∃ ns, m.Chain hosts d.superclass ns) := by
  -- a module starts with its repeats and the classes without a chain
  have hstart : (m.start (ClassTable.ofHost hosts)).failed =
      (m.table hosts).duplicates.map Prod.snd ++ (m.table hosts).moduleClasses (· == .cyclic)
        ++ (m.table hosts).moduleClasses (· == .blocked) := by
    rw [← ClassTable.cycles_eq table_closed, ← ClassTable.blocked_eq table_closed]
    rfl
  simp only [hstart, List.mem_append, mem_duplicates_iff, mem_moduleClasses_iff, beq_iff_eq]
  constructor
  · rintro ((⟨d, hd, hrep⟩ | ⟨d, hd, hs⟩) | ⟨d, hd, hs⟩)
    · exact ⟨d, hd, fun h => hrep h.1⟩
    · refine ⟨d, hd, ?_⟩
      rintro ⟨-, ns, hns⟩
      rw [(standing_rooted_iff hd).mpr ⟨ns, hns, rfl⟩] at hs
      cases hs
    · exact ⟨d, hd, fun h => ((standing_blocked_iff hd).mp hs).1 h.2⟩
  · rintro ⟨d, hd, h⟩
    by_cases hrep : m.declaration? d.name = some d
    · have hb : ¬ ∃ ns, m.Chain hosts d.superclass ns := fun hns => h ⟨hrep, hns⟩
      by_cases hcyc : m.OnCycle hosts d
      · exact Or.inl (Or.inr ⟨d, hd, (standing_cyclic_iff hd).mpr hcyc⟩)
      · exact Or.inr ⟨d, hd, (standing_blocked_iff hd).mpr ⟨hb, hcyc⟩⟩
    · exact Or.inl (Or.inl ⟨d, hd, hrep⟩)

/-! ## §4 The order of the scheduled classes -/

/-- The depth of a class is the length of its chain. -/
theorem depth_table {ns : List String} (hw : (m.roster hosts)[id]? = some w)
    (hns : m.Chain hosts w.superclass ns) : (m.table hosts).depth id = ns.length := by
  have hend := (length_ancestors_table_lt_iff hw).mpr ⟨ns, hns⟩
  rw [ClassTable.depth_eq_length table_closed (lt_table_size hw) hend,
    length_ancestors_table hw hns]

theorem position_own (hd : (m.roster hosts)[id]? = some (.own d)) :
    (m.table hosts).position id = d.position := by
  rw [ClassTable.position, statement_own hd]
  rfl

/-- The scheduled classes are those with a chain. -/
theorem mem_order_iff : id ∈ (m.table hosts).inheritanceOrder.order ↔
    ∃ d ns, (m.roster hosts)[id]? = some (.own d) ∧ m.Chain hosts d.superclass ns := by
  rw [ClassTable.mem_order_iff_end table_closed, inModule_iff]
  constructor
  · rintro ⟨⟨d, hd⟩, hend⟩
    obtain ⟨ns, hns⟩ := (length_ancestors_table_lt_iff hd).mp hend
    exact ⟨d, ns, hd, hns⟩
  · rintro ⟨d, ns, hd, hns⟩
    exact ⟨⟨d, hd⟩, (length_ancestors_table_lt_iff hd).mpr ⟨ns, hns⟩⟩

/-- Scheduled classes come by the length of their chains, and by position for equal lengths. -/
theorem pairwise_order : (m.table hosts).inheritanceOrder.order.Pairwise fun a b =>
    ∀ d e ns ks, (m.roster hosts)[a]? = some (.own d) → (m.roster hosts)[b]? = some (.own e) →
      m.Chain hosts d.superclass ns → m.Chain hosts e.superclass ks →
      ns.length < ks.length ∨ ns.length = ks.length ∧ d.position < e.position := by
  apply (ClassTable.pairwise_order table_closed).imp
  intro a b hab d e ns ks hd he hns hks
  have hne := hab.ne
  rw [ClassTable.Precedes, depth_table hd hns, depth_table he hks, position_own hd,
    position_own he] at hab
  rcases hab with hlt | ⟨heq, hlt | ⟨hpos, -⟩⟩
  · exact Or.inl hlt
  · exact Or.inr ⟨heq, hlt⟩
  · -- classes at one position are one class
    have hde : d = e := Declared.eq_of_position (mem_declared_of_roster hd)
      (mem_declared_of_roster he) hpos
    subst hde
    exact absurd (roster_own_inj hd he) hne

end Module

end FieldPromotion
