import FieldPromotion.Proofs.InheritanceOrder
import FieldPromotion.Proofs.Tables

/-!
# What a table records

A table only grows. Whatever is done to it, a class keeps its position, its name, its span, the name
of its superclass and its place in its module, while its parent and its fields may change. A name
refers to a class as soon as a class of that name is there, and the pairs of a first declaration and a
repeat stay as they were recorded. Every operation is described by the classes it adds: where they
stand, which names refer to them, and which of them are repeats.
-/

namespace FieldPromotion

/-! ## §1 What an operation adds -/

/-- The classes that an operation adds. -/
def TableOp.entries : TableOp → List ClassEntry
  | .external c => [(Meaning.host c).entry]
  | .module m => ClassTable.entriesOf m
  | .resolve => []
  | .addField _ _ => []

/-- The part of an entry that never changes: all but the parent and the fields. -/
def ClassEntry.head (e : ClassEntry) : ClassEntry :=
  { e with parent := none, fields := [] }

namespace ClassTable

variable {t u v : ClassTable} {id : ClassId} {n : String} {e : ClassEntry} {m : Module}

/-- The classes that are there stay, and those of the operation follow. -/
theorem heads_apply (t : ClassTable) (op : TableOp) :
    (t.apply op).classes.map ClassEntry.head =
      t.classes.map ClassEntry.head ++ op.entries.map ClassEntry.head := by
  cases op with
  | external c => exact List.map_append
  | module m =>
    -- resolving the parents of what was taken up changes parents only
    have hparents : ((t.takeUp m).resolveParents).classes.map ClassEntry.head =
        (t.takeUp m).classes.map ClassEntry.head := List.map_map
    have hclasses : (t.takeUp m).classes = t.classes ++ entriesOf m := (intake_spec t _).1
    rw [TableOp.entries, ← List.map_append, ← hclasses, ← hparents]
    rfl
  | resolve =>
    rw [TableOp.entries, List.map_nil, List.append_nil]
    exact List.map_map
  | addField id field =>
    rw [TableOp.entries, List.map_nil, List.append_nil]
    apply List.ext_getElem?
    intro a
    have hget := @get?_addField t id a field
    simp only [get?] at hget
    rw [List.getElem?_map, List.getElem?_map, apply, hget, Option.map_map]
    refine Option.map_congr fun e _ => ?_
    by_cases ha : a = id <;> simp [ha, ClassEntry.head]

/-- A name refers to the first class of that name that the operation adds, or else to what it
referred to before. -/
theorem lookup_apply (t : ClassTable) (op : TableOp) (n : String) : (t.apply op).lookup n =
    ((op.entries.findIdx? (·.name == n)).map (t.size + ·)).or (t.lookup n) := by
  cases op with
  | external c =>
    simp only [apply, registerExternal, register, lookup, List.lookup_cons]
    by_cases hn : n = c.name
    · simp [hn, TableOp.entries, Meaning.entry]
    · have hne : (n == c.name) = false := beq_eq_false_iff_ne.mpr hn
      simp [hne, Ne.symm hn, TableOp.entries, Meaning.entry]
  | module m => exact (intake_spec t (entriesOf m)).2.2.1 n
  | resolve => rfl
  | addField id field => rfl

/-- The repeats among the added classes are recorded after those that are there. -/
theorem duplicates_apply (t : ClassTable) (op : TableOp) :
    (t.apply op).duplicates = t.duplicates ++ repeatPairs t.size op.entries := by
  cases op with
  | external c => simp [apply, registerExternal, register, push, TableOp.entries, repeatPairs]
  | module m => exact (intake_spec t (entriesOf m)).2.2.2
  | resolve => simp [apply, resolveParents, TableOp.entries, repeatPairs]
  | addField id field => simp [apply, addField, TableOp.entries, repeatPairs]

/-! ## §2 What is kept -/

/-- Every class of `t` is a class of `u`, with the same name, span, superclass name and place in its
module. -/
def Keeps (t u : ClassTable) : Prop :=
  ∀ id e, t.get? id = some e → ∃ e', u.get? id = some e' ∧ e'.name = e.name ∧ e'.span = e.span ∧
    e'.superclass = e.superclass ∧ e'.statement = e.statement

theorem Keeps.refl (t : ClassTable) : t.Keeps t := by
  intro id e he
  exact ⟨e, he, rfl, rfl, rfl, rfl⟩

theorem Keeps.trans (h : t.Keeps u) (h' : u.Keeps v) : t.Keeps v := by
  intro id e he
  obtain ⟨e', he', hname, hspan, hsup, hstmt⟩ := h id e he
  obtain ⟨e'', he'', hname', hspan', hsup', hstmt'⟩ := h' id e' he'
  exact ⟨e'', he'', hname'.trans hname, hspan'.trans hspan, hsup'.trans hsup, hstmt'.trans hstmt⟩

/-- A class of which the part that never changes is known. -/
theorem exists_get?_of_head (h : (t.classes.map ClassEntry.head)[id]? = some e.head) :
    ∃ e', t.get? id = some e' ∧ e'.name = e.name ∧ e'.span = e.span ∧
      e'.superclass = e.superclass ∧ e'.statement = e.statement := by
  rw [List.getElem?_map] at h
  obtain ⟨e', he', hhead⟩ := Option.map_eq_some_iff.mp h
  simp only [ClassEntry.head, ClassEntry.mk.injEq] at hhead
  obtain ⟨hname, hspan, hsup, -, -, hstmt⟩ := hhead
  exact ⟨e', he', hname, hspan, hsup, hstmt⟩

/-- A table whose classes begin with those of `t`, parents and fields apart, keeps the classes
of `t`. -/
theorem keeps_of_heads {es : List ClassEntry}
    (h : u.classes.map ClassEntry.head = t.classes.map ClassEntry.head ++ es) : t.Keeps u := by
  intro id e he
  have hlt : id < (t.classes.map ClassEntry.head).length := by
    simpa using (List.getElem?_eq_some_iff.mp he).1
  apply exists_get?_of_head
  rw [h, List.getElem?_append_left hlt, List.getElem?_map, show t.classes[id]? = some e from he]
  rfl

theorem keeps_apply (t : ClassTable) (op : TableOp) : t.Keeps (t.apply op) :=
  keeps_of_heads (heads_apply t op)

theorem ofOps_append_singleton (ops : List TableOp) (op : TableOp) :
    ofOps (ops ++ [op]) = (ofOps ops).apply op := by
  simp [ofOps]

/-- Later operations keep the classes of a table. -/
theorem keeps_ofOps_append (ops more : List TableOp) :
    (ofOps ops).Keeps (ofOps (ops ++ more)) := by
  induction more using List.reverseRecOn with
  | nil =>
    rw [List.append_nil]
    exact Keeps.refl _
  | append_singleton more op ih =>
    rw [← List.append_assoc, ofOps_append_singleton]
    exact ih.trans (keeps_apply _ op)

theorem exists_get? (hid : id < t.size) : ∃ e, t.get? id = some e :=
  ⟨_, List.getElem?_eq_getElem hid⟩

theorem Keeps.nameOf (h : t.Keeps u) (hid : id < t.size) : u.nameOf id = t.nameOf id := by
  obtain ⟨e, he⟩ := exists_get? hid
  obtain ⟨e', he', hname, -⟩ := h id e he
  simp [ClassTable.nameOf, he, he', hname]

theorem Keeps.inModule (h : t.Keeps u) (hid : t.InModule id) : u.InModule id := by
  obtain ⟨e, he⟩ := exists_get? hid.lt_size
  obtain ⟨e', he', -, -, -, hstmt⟩ := h id e he
  rw [InModule, he, Option.bind_some] at hid
  rw [InModule, he', Option.bind_some, hstmt]
  exact hid

/-! ## §3 Names and repeats -/

/-- A coherent table in which names refer to classes exactly if there are such classes, and in which
every repeat is paired with an earlier class of the same name; both are classes of a module. -/
structure Consistent (t : ClassTable) : Prop extends t.Coherent where
  known : ∀ n, (t.lookup n).isSome = true ↔ ∃ e ∈ t.classes, e.name = n
  repeats : ∀ p ∈ t.duplicates, p.1 < p.2 ∧ t.nameOf p.1 = t.nameOf p.2 ∧
    t.InModule p.1 ∧ t.InModule p.2

/-- An added class stands after those that were there. -/
theorem get?_apply_add (t : ClassTable) {op : TableOp} {k : Nat} (h : op.entries[k]? = some e) :
    ∃ e', (t.apply op).get? (t.size + k) = some e' ∧ e'.name = e.name ∧ e'.span = e.span ∧
      e'.superclass = e.superclass ∧ e'.statement = e.statement := by
  apply exists_get?_of_head
  rw [heads_apply, List.getElem?_append_right (by simp [size]), List.length_map, size,
    Nat.add_sub_cancel_left, List.getElem?_map, h]
  rfl

/-- A class of a module stands where its number among the classes of the module says. -/
theorem get?_apply_module_add (t : ClassTable) {d : Declared} {k : Nat}
    (h : m.declared[k]? = some d) : ∃ e, (t.apply (.module m)).get? (t.size + k) = some e ∧
      e.name = d.name ∧ e.statement = some d.position := by
  have hentry : (TableOp.module m).entries[k]? = some (Meaning.own d).entry := by
    rw [TableOp.entries, Module.entriesOf_eq, List.getElem?_map, h]
    rfl
  obtain ⟨e, he, hname, -, -, hstmt⟩ := get?_apply_add t hentry
  exact ⟨e, he, hname, hstmt⟩

theorem known_apply (h : ∀ n, (t.lookup n).isSome = true ↔ ∃ e ∈ t.classes, e.name = n)
    (op : TableOp) (n : String) :
    ((t.apply op).lookup n).isSome = true ↔ ∃ e ∈ (t.apply op).classes, e.name = n := by
  have hnames : (t.apply op).classes.map ClassEntry.name =
      t.classes.map ClassEntry.name ++ op.entries.map ClassEntry.name := by
    have hheads := congrArg (List.map ClassEntry.name) (heads_apply t op)
    simpa [Function.comp_def, ClassEntry.head] using hheads
  have hmem : (∃ e ∈ (t.apply op).classes, e.name = n) ↔
      n ∈ (t.apply op).classes.map ClassEntry.name := List.mem_map.symm
  rw [hmem, hnames, List.mem_append, List.mem_map, List.mem_map, ← h n, lookup_apply]
  -- a name of an added class, or one that was known before
  rw [Option.isSome_or, Bool.or_eq_true, Option.isSome_map, List.findIdx?_isSome, List.any_eq_true]
  simp only [beq_iff_eq]
  exact Or.comm

theorem repeats_apply (h : ∀ p ∈ t.duplicates, p.1 < p.2 ∧ t.nameOf p.1 = t.nameOf p.2 ∧
      t.InModule p.1 ∧ t.InModule p.2) (op : TableOp) :
    ∀ p ∈ (t.apply op).duplicates, p.1 < p.2 ∧
      (t.apply op).nameOf p.1 = (t.apply op).nameOf p.2 ∧
      (t.apply op).InModule p.1 ∧ (t.apply op).InModule p.2 := by
  intro p hp
  rw [duplicates_apply, List.mem_append] at hp
  rcases hp with hp | hp
  · -- a pair that was recorded before
    obtain ⟨hlt, hname, hfirst, hrepeat⟩ := h p hp
    have hkeep := keeps_apply t op
    rw [hkeep.nameOf hfirst.lt_size, hkeep.nameOf hrepeat.lt_size]
    exact ⟨hlt, hname, hkeep.inModule hfirst, hkeep.inModule hrepeat⟩
  · -- only a module adds more than one class at a time
    cases op with
    | external c => simp [TableOp.entries, repeatPairs] at hp
    | resolve => simp [TableOp.entries, repeatPairs] at hp
    | addField id field => simp [TableOp.entries, repeatPairs] at hp
    | module m =>
      rw [TableOp.entries, Module.entriesOf_eq, Module.mem_repeatPairs_iff] at hp
      obtain ⟨j, k, first, d, hj, hk, rfl, hfirst, hne⟩ := hp
      obtain ⟨e, he, hname, hstmt⟩ := get?_apply_module_add t hj
      obtain ⟨e', he', hname', hstmt'⟩ := get?_apply_module_add t hk
      refine ⟨Nat.add_lt_add_left (Module.lt_of_repeat hj hk hfirst hne) t.size, ?_, ?_, ?_⟩
      · have hsame := Module.name_of_declaration? hfirst
        simp [nameOf, he, he', hname, hname', hsame]
      · simp [InModule, he, hstmt]
      · simp [InModule, he', hstmt']

theorem consistent_empty : ({} : ClassTable).Consistent where
  toCoherent := coherent_ofOps []
  known := by simp [lookup]
  repeats := by simp

theorem Consistent.apply (h : t.Consistent) (op : TableOp) : (t.apply op).Consistent where
  toCoherent := h.toCoherent.apply op
  known := known_apply h.known op
  repeats := repeats_apply h.repeats op

/-! ## §4 Right after an operation -/

/-- Every parent is what the superclass name refers to, and there is none when it refers to
nothing. -/
def Resolved (t : ClassTable) : Prop :=
  ∀ id e, t.get? id = some e → e.parent = e.superclass.bind t.lookup

theorem resolved_resolveParents (t : ClassTable) : t.resolveParents.Resolved := by
  intro id e he
  rw [get?_resolveParents] at he
  obtain ⟨old, -, rfl⟩ := Option.map_eq_some_iff.mp he
  rfl

/-- `t.Enters c u`: the table `u` has the host class `c` after the classes of `t`, its name refers to
it, and all other names refer to what they did in `t`. -/
structure Enters (t : ClassTable) (c : HostClass) (u : ClassTable) : Prop where
  size : u.size = t.size + 1
  entry : u.get? t.size = some { name := c.name, superclass := c.superclass, fields := c.fields }
  named : u.lookup c.name = some t.size
  others : ∀ n, n ≠ c.name → u.lookup n = t.lookup n

theorem enters_apply (t : ClassTable) (c : HostClass) : t.Enters c (t.apply (.external c)) where
  size := by simp [apply, registerExternal, register, push, ClassTable.size]
  entry := by simp [apply, registerExternal, register, push, get?, ClassTable.size]
  named := by simp [lookup_apply, TableOp.entries, Meaning.entry]
  others := by
    intro n hn
    simp [lookup_apply, TableOp.entries, Meaning.entry, Ne.symm hn]

end ClassTable

/-- `m.StandsAt base d id`: with the classes of `m` after `base` others, the class `d` of `m` stands at
`id`. -/
def Module.StandsAt (m : Module) (base : Nat) (d : Declared) (id : ClassId) : Prop :=
  ∃ k, m.declared[k]? = some d ∧ id = base + k

namespace ClassTable

variable {t u : ClassTable} {n : String} {m : Module} {d : Declared}

/-- `t.TakesUp m u`: the table `u` has the classes of the module `m` after those of `t`. -/
structure TakesUp (t : ClassTable) (m : Module) (u : ClassTable) : Prop where
  size : u.size = t.size + m.declared.length
  /-- What is recorded of a class of the module. -/
  entry : ∀ d id, m.StandsAt t.size d id → ∃ e, u.get? id = some e ∧ e.name = d.name ∧
    e.span = d.decl.name.span ∧ e.superclass = d.superclass ∧ e.fields = d.decl.sites ∧
    e.statement = some d.position
  /-- A name that the module declares refers to its first declaration there. -/
  first : ∀ n d, m.declaration? n = some d → ∃ id, m.StandsAt t.size d id ∧ u.lookup n = some id
  /-- Any other name refers to what it did before. -/
  others : ∀ n, m.declaration? n = none → u.lookup n = t.lookup n
  /-- The later declarations of a name are recorded in source order, each with the first one. -/
  repeats : ∃ added, u.duplicates = t.duplicates ++ added ∧
    (added.Pairwise fun p q => p.2 < q.2) ∧
    ∀ p, p ∈ added ↔ ∃ first d, m.StandsAt t.size first p.1 ∧ m.StandsAt t.size d p.2 ∧
      m.declaration? d.name = some first ∧ first ≠ d

theorem lookup_apply_module (t : ClassTable) (m : Module) (n : String) :
    (t.apply (.module m)).lookup n =
      ((m.declared.findIdx? (·.name == n)).map (t.size + ·)).or (t.lookup n) := by
  rw [lookup_apply, TableOp.entries, Module.entriesOf_eq, List.findIdx?_map]
  rfl

theorem pairwise_repeatPairs (base : Nat) (es : List ClassEntry) :
    (repeatPairs base es).Pairwise fun p q => p.2 < q.2 := by
  refine List.Pairwise.filterMap _ ?_ (pairwise_zipIdx es)
  intro x y hxy p hp q hq
  obtain ⟨i, -, hi⟩ := Option.bind_eq_some_iff.mp hp
  obtain ⟨j, -, hj⟩ := Option.bind_eq_some_iff.mp hq
  simp only [Option.ite_none_right_eq_some, Option.some.injEq] at hi hj
  rw [← hi.2, ← hj.2]
  exact Nat.add_lt_add_left hxy base

theorem takesUp_apply (t : ClassTable) (m : Module) : t.TakesUp m (t.apply (.module m)) where
  size := by
    have hlength := congrArg List.length (heads_apply t (.module m))
    simpa [ClassTable.size, TableOp.entries, Module.entriesOf_eq] using hlength
  entry := by
    intro d id h
    obtain ⟨k, hk, rfl⟩ := h
    -- the classes come after those that are there, and only their parents are filled in later
    have htaken : (t.takeUp m).get? (t.size + k) = some (Meaning.own d).entry := by
      have hclasses : (t.takeUp m).classes = t.classes ++ entriesOf m := (intake_spec t _).1
      rw [get?_append_add hclasses, Module.entriesOf_eq, List.getElem?_map, hk]
      rfl
    refine ⟨_, (get?_resolveParents _).trans (congrArg _ htaken), ?_⟩
    exact ⟨rfl, rfl, rfl, rfl, rfl⟩
  first := by
    intro n d hd
    -- the first class of a name is the one that the name leads to
    rw [Module.declaration?, List.find?_eq_bind_findIdx?_getElem?] at hd
    obtain ⟨k, hk, hkd⟩ := Option.bind_eq_some_iff.mp hd
    refine ⟨t.size + k, ⟨k, hkd, rfl⟩, ?_⟩
    rw [lookup_apply_module, hk]
    rfl
  others := by
    intro n hn
    rw [Module.declaration?, List.find?_eq_none] at hn
    rw [lookup_apply_module, List.findIdx?_eq_none_iff.mpr (by simpa using hn)]
    rfl
  repeats := by
    refine ⟨_, duplicates_apply t (.module m), pairwise_repeatPairs _ _, ?_⟩
    intro p
    rw [TableOp.entries, Module.entriesOf_eq, Module.mem_repeatPairs_iff]
    constructor
    · intro h
      obtain ⟨j, k, first, d, hj, hk, rfl, hfirst, hne⟩ := h
      exact ⟨first, d, ⟨j, hj, rfl⟩, ⟨k, hk, rfl⟩, hfirst, hne⟩
    · intro h
      obtain ⟨first, d, ⟨j, hj, hpj⟩, ⟨k, hk, hpk⟩, hfirst, hne⟩ := h
      exact ⟨j, k, first, d, hj, hk, Prod.ext hpj hpk, hfirst, hne⟩

/-! ## §5 Tables in use -/

/-- Every table in use is consistent. Whatever is done to it keeps its classes. A class that the host
registers and the classes of a module come after those that are there, the names of the new classes
refer to them, and after a module, as after resolving, every parent is what the name of the superclass
refers to. -/
theorem consistent_ofOps (ops : List TableOp) :
    (ofOps ops).Consistent ∧
    (∀ more, (ofOps ops).Keeps (ofOps (ops ++ more))) ∧
    (∀ c, (ofOps ops).Enters c (ofOps (ops ++ [.external c]))) ∧
    (ofOps (ops ++ [.resolve])).Resolved ∧
    ∀ m, (ofOps (ops ++ [.module m])).Resolved ∧
      (ofOps ops).TakesUp m (ofOps (ops ++ [.module m])) := by
  refine ⟨?_, keeps_ofOps_append ops, ?_, ?_, ?_⟩
  · -- consistent from the start, and after each operation
    induction ops using List.reverseRecOn with
    | nil => exact consistent_empty
    | append_singleton ops op ih =>
      rw [ofOps_append_singleton]
      exact ih.apply op
  · intro c
    rw [ofOps_append_singleton]
    exact enters_apply _ c
  · rw [ofOps_append_singleton]
    exact resolved_resolveParents _
  · intro m
    rw [ofOps_append_singleton]
    exact ⟨resolved_resolveParents _, takesUp_apply _ m⟩

end ClassTable

end FieldPromotion
