import FieldPromotion.Proofs.Ancestry
import FieldPromotion.Proofs.Hierarchy

/-!
# The table of a module and a host

The class table lists the classes of the host and then those of the module, and its names and
parents are what the hierarchy says they are. Walks in the table are the chains of the hierarchy.
-/

namespace FieldPromotion

/-! ## §1 The table of a host -/

/-- What the table records of a class, its parent apart. -/
def Meaning.entry : Meaning → ClassEntry
  | .own d => d.decl.entry d.position
  | .host h => { name := h.name, superclass := h.superclass, fields := h.fields }

@[simp] theorem Meaning.entry_name (w : Meaning) : w.entry.name = w.name := by cases w <;> rfl

@[simp] theorem Meaning.entry_superclass (w : Meaning) : w.entry.superclass = w.superclass := by
  cases w <;> rfl

@[simp] theorem Meaning.entry_fields (w : Meaning) : w.entry.fields = w.sites := by cases w <;> rfl

namespace ClassTable

theorem ofHost_append (hosts : List HostClass) (h : HostClass) :
    ofHost (hosts ++ [h]) = (ofHost hosts).registerExternal h.name h.superclass h.fields := by
  simp [ofHost]

/-- The table of a host has one entry for each class. -/
theorem ofHost_classes (hosts : List HostClass) :
    (ofHost hosts).classes = hosts.map fun h => (Meaning.host h).entry := by
  induction hosts using List.reverseRecOn with
  | nil => rfl
  | append_singleton hosts h ih =>
    rw [ofHost_append]
    simp [registerExternal, register, push, ih, Meaning.entry]

@[simp] theorem ofHost_size (hosts : List HostClass) : (ofHost hosts).size = hosts.length := by
  simp [size, ofHost_classes]

/-- A host may register a name again, which counts as no repeat. -/
@[simp] theorem ofHost_duplicates (hosts : List HostClass) : (ofHost hosts).duplicates = [] := by
  induction hosts using List.reverseRecOn with
  | nil => rfl
  | append_singleton hosts h ih =>
    rw [ofHost_append]
    exact ih

/-- A name refers to the class that was registered last under it. -/
theorem ofHost_lookup (hosts : List HostClass) (n : String) :
    ((ofHost hosts).lookup n).map (hosts[·]?) =
      (hosts.reverse.find? (·.name == n)).map some := by
  induction hosts using List.reverseRecOn with
  | nil => rfl
  | append_singleton hosts h ih =>
    have hnames : (ofHost (hosts ++ [h])).lookup n =
        if n == h.name then some hosts.length else (ofHost hosts).lookup n := by
      rw [ofHost_append]
      simp only [registerExternal, register, push, lookup, ofHost_size, List.lookup_cons]
      split <;> simp_all
    rw [hnames]
    by_cases hn : h.name = n
    · simp [hn]
    · have hne : (n == h.name) = false := by simpa using fun h' => hn h'.symm
      rw [hne, List.reverse_append]
      simp only [Bool.false_eq_true, if_false, List.reverse_singleton, List.singleton_append,
        List.find?_cons, beq_eq_false_iff_ne.mpr hn]
      rw [← ih]
      cases hl : (ofHost hosts).lookup n with
      | none => rfl
      | some id =>
        -- a position of the shorter list stays what it is
        rw [hl] at ih
        cases hf : hosts.reverse.find? (·.name == n) with
        | none => simp [hf] at ih
        | some x =>
          simp only [hf, Option.map_some, Option.some.injEq] at ih
          have hlt : id < hosts.length := (List.getElem?_eq_some_iff.mp ih).1
          simp [List.getElem?_append_left hlt]

/-! ## §2 Taking up a module -/

/-- The pairs of a first declaration and a repeat of it among entries that follow `base` classes. -/
def repeatPairs (base : Nat) (es : List ClassEntry) : List (ClassId × ClassId) :=
  es.zipIdx.filterMap fun x => (es.findIdx? (·.name == x.1.name)).bind fun j =>
    if j < x.2 then some (base + j, base + x.2) else none

/-- One more class is a repeat if one before it has its name. -/
theorem repeatPairs_append (base : Nat) (es : List ClassEntry) (e : ClassEntry) :
    repeatPairs base (es ++ [e]) = repeatPairs base es ++
      ((es.findIdx? (·.name == e.name)).map fun j => (base + j, base + es.length)).toList := by
  unfold repeatPairs
  rw [List.zipIdx_append, List.filterMap_append]
  congr 1
  · -- an entry of the shorter list finds its first declaration there
    refine List.filterMap_congr fun x hx => ?_
    have hmem : x.1 ∈ es := List.mem_of_getElem? (List.mem_zipIdx_iff_getElem?.mp hx)
    rw [List.findIdx?_append]
    cases hf : es.findIdx? (·.name == x.1.name) with
    | none =>
      have := List.findIdx?_eq_none_iff.mp hf x.1 hmem
      simp at this
    | some j => rfl
  · simp only [List.zipIdx_cons, List.zipIdx_nil, List.filterMap_cons, List.filterMap_nil,
      Nat.zero_add, List.findIdx?_append]
    cases hf : es.findIdx? (·.name == e.name) with
    | none => simp
    | some j =>
      have hj : j < es.length := (List.findIdx?_eq_some_iff_getElem.mp hf).1
      simp [hj]

/-- The table after taking up some classes of a module. -/
theorem intake_spec (t : ClassTable) (es : List ClassEntry) :
    (es.foldl Intake.add { table := t }).table.classes = t.classes ++ es ∧
    (∀ n, (es.foldl Intake.add { table := t }).seen.lookup n =
      (es.findIdx? (·.name == n)).map (t.size + ·)) ∧
    (∀ n, (es.foldl Intake.add { table := t }).table.lookup n =
      ((es.findIdx? (·.name == n)).map (t.size + ·)).or (t.lookup n)) ∧
    (es.foldl Intake.add { table := t }).table.duplicates =
      t.duplicates ++ repeatPairs t.size es := by
  induction es using List.reverseRecOn with
  | nil => simp [repeatPairs]
  | append_singleton es e ih =>
    rw [List.foldl_append, List.foldl_cons, List.foldl_nil]
    generalize es.foldl Intake.add { table := t } = i at ih ⊢
    obtain ⟨hclasses, hseen, hlookup, hdup⟩ := ih
    have hsize : i.table.size = t.size + es.length := by simp [size, hclasses]
    have hfind (n : String) : (es ++ [e]).findIdx? (·.name == n) =
        (es.findIdx? (·.name == n)).or (if e.name = n then some es.length else none) := by
      rw [List.findIdx?_append]
      by_cases hn : e.name = n <;> simp [hn]
    unfold Intake.add
    cases hfirst : es.findIdx? (·.name == e.name) with
    | some j =>
      -- a repeat: no name changes its meaning
      rw [hseen, hfirst]
      have hsame (n : String) : (es ++ [e]).findIdx? (·.name == n) =
          es.findIdx? (·.name == n) := by
        rw [hfind]
        by_cases hn : e.name = n
        · subst hn
          simp [hfirst]
        · simp [hn]
      refine ⟨by simp [push, hclasses], fun n => by simp [hsame, hseen],
        fun n => by rw [hsame, ← hlookup]; rfl, ?_⟩
      simp [repeatPairs_append, hdup, hfirst, hsize]
    | none =>
      -- a first declaration: its name refers to it from now on, and the other names stay
      rw [hseen, hfirst]
      refine ⟨by simp [register, push, hclasses], fun n => ?_, fun n => ?_, ?_⟩
      · rw [hfind]
        by_cases hn : e.name = n
        · subst hn
          simp [hfirst, hsize]
        · have hne : (n == e.name) = false := by simpa using fun h => hn h.symm
          simp [hn, hne, List.lookup_cons, hseen]
      · rw [hfind]
        by_cases hn : e.name = n
        · subst hn
          simp [hfirst, hsize, lookup, register]
        · have hne : (n == e.name) = false := by simpa using fun h => hn h.symm
          have hstep : (i.table.register e).lookup n = i.table.lookup n := by
            simp [lookup, register, push, List.lookup_cons, hne]
          simp [hn, hstep, hlookup]
      · simp [repeatPairs_append, hfirst, register, push, hdup]

end ClassTable

/-! ## §3 The classes of the table -/

namespace Module

/-- The table of a module and the classes of a host. -/
def table (m : Module) (hosts : List HostClass) : ClassTable :=
  (ClassTable.ofHost hosts).registerModule m

/-- All classes of that table in the order of their positions. -/
def roster (m : Module) (hosts : List HostClass) : List Meaning :=
  hosts.map .host ++ m.declared.map .own

variable {m : Module} {hosts : List HostClass} {id a : ClassId} {n : String} {w : Meaning}
  {d : Declared} {s : Option String} {ns : List String}

/-- The entries of a module are those of its declared classes. -/
theorem entriesOf_eq (m : Module) :
    ClassTable.entriesOf m = m.declared.map fun d => (Meaning.own d).entry := by
  simp only [ClassTable.entriesOf, declared, List.map_filterMap, Option.map_map]
  rfl

/-- The classes of the table are those of the host and of the module, with their parents looked up
by name. -/
theorem table_classes : (m.table hosts).classes = (m.roster hosts).map fun w =>
    { w.entry with parent := w.superclass.bind (m.table hosts).lookup } := by
  have hclasses : ((ClassTable.ofHost hosts).takeUp m).classes =
      (m.roster hosts).map Meaning.entry := by
    rw [ClassTable.takeUp, (ClassTable.intake_spec _ _).1, ClassTable.ofHost_classes, entriesOf_eq]
    simp [roster, Function.comp_def]
  change ((ClassTable.ofHost hosts).takeUp m).classes.map _ = _
  rw [hclasses, List.map_map]
  refine List.map_congr_left fun w _ => ?_
  simp only [Function.comp, Meaning.entry_superclass]
  rfl

@[simp] theorem table_size : (m.table hosts).size = (m.roster hosts).length := by
  simp [ClassTable.size, table_classes]

theorem table_get? (id : ClassId) : (m.table hosts).get? id = ((m.roster hosts)[id]?).map fun w =>
    { w.entry with parent := w.superclass.bind (m.table hosts).lookup } := by
  simp [ClassTable.get?, table_classes]

/-- The parent of a class is what its superclass name refers to. -/
theorem parentOf_table (hw : (m.roster hosts)[id]? = some w) :
    (m.table hosts).parentOf id = w.superclass.bind (m.table hosts).lookup := by
  simp [ClassTable.parentOf, table_get?, hw]

/-- The repeats in the table are those within the module. -/
theorem table_duplicates : (m.table hosts).duplicates =
    ClassTable.repeatPairs hosts.length (m.declared.map fun d => (Meaning.own d).entry) := by
  change ((ClassTable.ofHost hosts).takeUp m).duplicates = _
  rw [ClassTable.takeUp, (ClassTable.intake_spec _ _).2.2.2, entriesOf_eq]
  simp

/-- The table and the hierarchy agree on what a name refers to. -/
theorem table_lookup (m : Module) (hosts : List HostClass) (n : String) :
    ((m.table hosts).lookup n).map ((m.roster hosts)[·]?) = (m.meaning hosts n).map some := by
  have hlookup : (m.table hosts).lookup n =
      ((m.declared.findIdx? (·.name == n)).map (hosts.length + ·)).or
        ((ClassTable.ofHost hosts).lookup n) := by
    change ((ClassTable.ofHost hosts).takeUp m).lookup n = _
    rw [ClassTable.takeUp, (ClassTable.intake_spec _ _).2.2.1, entriesOf_eq, List.findIdx?_map]
    simp only [Function.comp_def, Meaning.entry_name, ClassTable.ofHost_size]
    rfl
  rw [hlookup, meaning, declaration?]
  cases hidx : m.declared.findIdx? (·.name == n) with
  | some k =>
    -- a class of the module
    have hfind : m.declared.find? (·.name == n) = m.declared[k]? := by
      rw [List.find?_eq_bind_findIdx?_getElem?, hidx]
      rfl
    obtain ⟨hk, _⟩ := List.findIdx?_eq_some_iff_getElem.mp hidx
    simp [hfind, roster, hk]
  | none =>
    -- a class of the host, if any
    have hfind : m.declared.find? (·.name == n) = none := by
      rw [List.find?_eq_bind_findIdx?_getElem?, hidx]
      rfl
    have hhost := ClassTable.ofHost_lookup hosts n
    cases hl : (ClassTable.ofHost hosts).lookup n with
    | none =>
      rw [hl] at hhost
      cases hx : hosts.reverse.find? (·.name == n) with
      | none => simp [hfind]
      | some x => simp [hx] at hhost
    | some id =>
      rw [hl] at hhost
      cases hx : hosts.reverse.find? (·.name == n) with
      | none => simp [hx] at hhost
      | some x =>
        simp only [hx, Option.map_some, Option.some.injEq] at hhost
        have hlt : id < hosts.length := (List.getElem?_eq_some_iff.mp hhost).1
        simp only [Option.map_none, Option.none_or, Option.map_some, hfind, roster]
        rw [List.getElem?_append_left (by simpa using hlt), List.getElem?_map, hhost]
        rfl

/-- A name that is found in the table refers to the class that stands there. -/
theorem meaning_of_lookup (h : (m.table hosts).lookup n = some id) :
    ∃ w, m.meaning hosts n = some w ∧ (m.roster hosts)[id]? = some w := by
  have hn := m.table_lookup hosts n
  rw [h] at hn
  cases hw : m.meaning hosts n with
  | none => simp [hw] at hn
  | some w => exact ⟨w, rfl, by simpa [hw] using hn⟩

/-- A name that refers to a class is found in the table, at that class. -/
theorem lookup_of_meaning (h : m.meaning hosts n = some w) :
    ∃ id, (m.table hosts).lookup n = some id ∧ (m.roster hosts)[id]? = some w := by
  have hn := m.table_lookup hosts n
  rw [h] at hn
  cases hid : (m.table hosts).lookup n with
  | none => simp [hid] at hn
  | some id => exact ⟨id, rfl, by simpa [hid] using hn⟩

/-- A name that refers to nothing is not found. -/
theorem lookup_eq_none_iff : (m.table hosts).lookup n = none ↔ m.meaning hosts n = none := by
  have hn := m.table_lookup hosts n
  cases hid : (m.table hosts).lookup n <;> cases hw : m.meaning hosts n <;> simp_all

/-- All parents are classes of the table. -/
theorem table_closed : (m.table hosts).Closed := by
  intro id p h
  cases hw : (m.roster hosts)[id]? with
  | none => simp [ClassTable.parentOf, table_get?, hw] at h
  | some w =>
    rw [parentOf_table hw] at h
    obtain ⟨n, _, hn⟩ := Option.bind_eq_some_iff.mp h
    obtain ⟨w', _, hw'⟩ := meaning_of_lookup hn
    rw [table_size]
    exact (List.getElem?_eq_some_iff.mp hw').1

/-- The classes of the module come after those of the host, in source order. -/
theorem roster_own_iff : (m.roster hosts)[id]? = some (.own d) ↔
    ∃ k, id = hosts.length + k ∧ m.declared[k]? = some d := by
  unfold roster
  -- the first places belong to the host
  rcases Nat.lt_or_ge id hosts.length with h | h
  · rw [List.getElem?_append_left (by simpa using h), List.getElem?_map]
    constructor
    · intro hh
      obtain ⟨x, _, hx⟩ := Option.map_eq_some_iff.mp hh
      cases hx
    · rintro ⟨k, rfl, _⟩
      omega
  · rw [List.getElem?_append_right (by simpa using h), List.length_map, List.getElem?_map,
      Option.map_eq_some_iff]
    constructor
    · rintro ⟨x, hx, hd⟩
      cases hd
      exact ⟨id - hosts.length, (Nat.add_sub_of_le h).symm, hx⟩
    · rintro ⟨k, rfl, hk⟩
      exact ⟨d, by rwa [Nat.add_sub_cancel_left], rfl⟩

theorem mem_declared_of_roster (hd : (m.roster hosts)[id]? = some (.own d)) : d ∈ m.declared := by
  obtain ⟨k, -, hk⟩ := roster_own_iff.mp hd
  exact List.mem_of_getElem? hk

/-- Every declared class has an entry. -/
theorem exists_roster (hosts : List HostClass) (hd : d ∈ m.declared) :
    ∃ id : ClassId, (m.roster hosts)[id]? = some (.own d) := by
  obtain ⟨k, hk⟩ := List.mem_iff_getElem?.mp hd
  exact ⟨hosts.length + k, roster_own_iff.mpr ⟨k, rfl, hk⟩⟩

/-- It has one entry only. -/
theorem roster_own_inj {b : ClassId} (ha : (m.roster hosts)[a]? = some (.own d))
    (hb : (m.roster hosts)[b]? = some (.own d)) : a = b := by
  obtain ⟨i, rfl, hi⟩ := roster_own_iff.mp ha
  obtain ⟨j, rfl, hj⟩ := roster_own_iff.mp hb
  have hlt : i < m.declared.length := (List.getElem?_eq_some_iff.mp hi).1
  rw [(List.getElem?_inj hlt m.nodup_declared).mp (hi.trans hj.symm)]

/-- A class of the module is what its name refers to unless it is a repeat. -/
theorem lookup_own_iff (hd : (m.roster hosts)[id]? = some (.own d)) :
    (m.table hosts).lookup d.name = some id ↔ m.declaration? d.name = some d := by
  constructor
  · intro h
    obtain ⟨w, hw, hid⟩ := meaning_of_lookup h
    rw [hd, Option.some.injEq] at hid
    subst hid
    exact declaration?_of_meaning_own hw
  · intro h
    obtain ⟨id', hid', hr⟩ := lookup_of_meaning (meaning_own hosts h)
    rw [hid', roster_own_inj hr hd]

/-! ## §4 Walks and chains -/

/-- A walk meets the classes of the chain one by one. -/
theorem Chain.climb (h : m.Chain hosts s ns) (k : Nat) :
    (m.table hosts).climb k (s.bind (m.table hosts).lookup) =
      (ns[k]?).bind (m.table hosts).lookup := by
  -- one link of the chain is one step of the walk
  induction h generalizing k with
  | @root s hs =>
    have hnone : s.bind (m.table hosts).lookup = none := by
      refine Option.bind_eq_none_iff.mpr fun n hn => ?_
      exact lookup_eq_none_iff.mpr (Option.bind_eq_none_iff.mp hs n hn)
    simp [hnone]
  | @link n w ns hw _ ih =>
    obtain ⟨id, hid, hr⟩ := lookup_of_meaning hw
    cases k with
    | zero => simp
    | succ k =>
      rw [ClassTable.climb_succ, Option.bind_some, hid, Option.bind_some, parentOf_table hr, ih,
        List.getElem?_cons_succ]

/-- A walk that ends gives a chain. -/
theorem chain_of_climb {k : Nat}
    (h : (m.table hosts).climb k (s.bind (m.table hosts).lookup) = none) :
    ∃ ns, m.Chain hosts s ns := by
  -- one step of the walk is one link of the chain, if the name is found at all
  induction k generalizing s with
  | zero =>
    refine ⟨[], .root (Option.bind_eq_none_iff.mpr fun n hn => ?_)⟩
    exact lookup_eq_none_iff.mp (Option.bind_eq_none_iff.mp h n hn)
  | succ k ih =>
    cases hs : s.bind (m.table hosts).lookup with
    | none =>
      refine ⟨[], .root (Option.bind_eq_none_iff.mpr fun n hn => ?_)⟩
      exact lookup_eq_none_iff.mp (Option.bind_eq_none_iff.mp hs n hn)
    | some id =>
      obtain ⟨n, rfl, hn⟩ := Option.bind_eq_some_iff.mp hs
      obtain ⟨w, hw, hr⟩ := meaning_of_lookup hn
      rw [hs, ClassTable.climb_succ, Option.bind_some, parentOf_table hr] at h
      obtain ⟨ns, hns⟩ := ih h
      exact ⟨n :: ns, .link hw hns⟩

/-- A walk meets exactly the classes above. -/
theorem above_iff_climb : m.Above hosts s n ↔ ∃ w, m.meaning hosts n = some w ∧
    ∃ k, (m.table hosts).climb k (s.bind (m.table hosts).lookup) = (m.table hosts).lookup n := by
  constructor
  · intro h
    induction h with
    | here hw => exact ⟨_, hw, 0, rfl⟩
    | @up n' a w hw _ ih =>
      obtain ⟨w', hw', k, hk⟩ := ih
      obtain ⟨id, hid, hr⟩ := lookup_of_meaning hw
      refine ⟨w', hw', k + 1, ?_⟩
      rw [ClassTable.climb_succ, Option.bind_some, hid, Option.bind_some, parentOf_table hr, hk]
  · rintro ⟨w, hw, k, hk⟩
    obtain ⟨id, hid, hr⟩ := lookup_of_meaning hw
    rw [hid] at hk
    induction k generalizing s with
    | zero =>
      obtain ⟨n', rfl, hn'⟩ := Option.bind_eq_some_iff.mp hk
      obtain ⟨w', hw', hr'⟩ := meaning_of_lookup hn'
      rw [hr, Option.some.injEq] at hr'
      subst hr'
      -- a class has one name
      obtain rfl : n' = n := (name_of_meaning hw').symm.trans (name_of_meaning hw)
      exact .here hw
    | succ k ih =>
      cases hs : s.bind (m.table hosts).lookup with
      | none => simp [hs] at hk
      | some id' =>
        obtain ⟨n', rfl, hn'⟩ := Option.bind_eq_some_iff.mp hs
        obtain ⟨w', hw', hr'⟩ := meaning_of_lookup hn'
        rw [hs, ClassTable.climb_succ, Option.bind_some, parentOf_table hr'] at hk
        exact .up hw' (ih hk)

section Walks

variable (hw : (m.roster hosts)[id]? = some w)
include hw

theorem lt_table_size : id < (m.table hosts).size := by
  rw [table_size]
  exact (List.getElem?_eq_some_iff.mp hw).1

/-- The first step up goes to what the superclass name refers to. -/
theorem climb_succ_table (k : Nat) : (m.table hosts).climb (k + 1) (some id) =
    (m.table hosts).climb k (w.superclass.bind (m.table hosts).lookup) := by
  rw [ClassTable.climb_succ, Option.bind_some, parentOf_table hw]

/-- The walk of a class ends when it has a chain. -/
theorem length_ancestors_table_lt_iff :
    ((m.table hosts).ancestors id).length < (m.table hosts).size ↔
      ∃ ns, m.Chain hosts w.superclass ns := by
  rw [ClassTable.length_ancestors_lt_iff table_closed (lt_table_size hw)]
  constructor
  · rintro ⟨k, hk⟩
    cases k with
    | zero => cases hk
    | succ k =>
      rw [climb_succ_table hw] at hk
      exact chain_of_climb hk
  · rintro ⟨ns, hns⟩
    refine ⟨ns.length + 1, ?_⟩
    rw [climb_succ_table hw, hns.climb, List.getElem?_eq_none (Nat.le_refl _), Option.bind_none]

/-- The ancestors of a class with a chain are the classes of the chain. -/
theorem map_ancestors_table (hns : m.Chain hosts w.superclass ns) :
    ((m.table hosts).ancestors id).map some = ns.map (m.table hosts).lookup := by
  have hend := (length_ancestors_table_lt_iff hw).mpr ⟨ns, hns⟩
  refine List.ext_getElem? fun k => ?_
  rw [List.getElem?_map, ClassTable.getElem?_ancestors_of_end hend, climb_succ_table hw, hns.climb,
    List.getElem?_map]
  cases hk : ns[k]? with
  | none => rfl
  | some n =>
    obtain ⟨w', _, hw', _⟩ := hns.of_mem (List.mem_of_getElem? hk)
    obtain ⟨a, ha, _⟩ := lookup_of_meaning hw'
    simp [ha]

/-- A class has as many ancestors as its chain has names. -/
theorem length_ancestors_table (hns : m.Chain hosts w.superclass ns) :
    ((m.table hosts).ancestors id).length = ns.length := by
  simpa using congrArg List.length (map_ancestors_table hw hns)

/-- The ancestors of a class are the classes above it. -/
theorem mem_ancestors_table : a ∈ (m.table hosts).ancestors id ↔
    ∃ n, m.Above hosts w.superclass n ∧ (m.table hosts).lookup n = some a := by
  rw [ClassTable.mem_ancestors_iff table_closed (lt_table_size hw)]
  constructor
  · rintro ⟨k, hk⟩
    -- what is met is the parent of something, so some name refers to it
    have hlookup : ∃ n, (m.table hosts).lookup n = some a := by
      rw [ClassTable.climb_succ_bind] at hk
      obtain ⟨b, _, hb⟩ := Option.bind_eq_some_iff.mp hk
      cases hr : (m.roster hosts)[b]? with
      | none => simp [ClassTable.parentOf, table_get?, hr] at hb
      | some w' =>
        rw [parentOf_table hr] at hb
        obtain ⟨n, _, hn⟩ := Option.bind_eq_some_iff.mp hb
        exact ⟨n, hn⟩
    obtain ⟨n, hn⟩ := hlookup
    obtain ⟨w', hw', _⟩ := meaning_of_lookup hn
    refine ⟨n, above_iff_climb.mpr ⟨w', hw', k, ?_⟩, hn⟩
    rw [← climb_succ_table hw, hk, hn]
  · rintro ⟨n, habove, hn⟩
    obtain ⟨_, _, k, hk⟩ := above_iff_climb.mp habove
    exact ⟨k, by rw [climb_succ_table hw, hk, hn]⟩

end Walks

end Module

end FieldPromotion
