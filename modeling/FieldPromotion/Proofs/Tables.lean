import FieldPromotion.Proofs.Registration
import FieldPromotion.Proofs.Standing

/-!
# Tables in use

A table starts empty and changes by four operations, in any order and as often as one likes: a host
registers a class, the classes of a module are added, parents are resolved, a field is added to a
class. Parents may be out of date in between. Still every name refers to a class of that name, and
every parent is a class whose name is written as the superclass, so the inheritance order of such a
table is what its parent links say.
-/

namespace FieldPromotion

/-! ## §1 Operations -/

/-- An operation on a class table. -/
inductive TableOp where
  | external (c : HostClass)
  | module (m : Module)
  | resolve
  | addField (id : ClassId) (field : FieldSite)

namespace ClassTable

variable {t : ClassTable} {id a : ClassId}

/-- The table after an operation. -/
def apply (t : ClassTable) : TableOp → ClassTable
  | .external c => t.registerExternal c.name c.superclass c.fields
  | .module m => t.registerModule m
  | .resolve => t.resolveParents
  | .addField id field => t.addField id field

/-- The table that operations make of the empty one. -/
def ofOps (ops : List TableOp) : ClassTable :=
  ops.foldl apply {}

theorem get?_resolveParents (id : ClassId) : t.resolveParents.get? id =
    (t.get? id).map fun e => { e with parent := e.superclass.bind t.lookup } := by
  simp [get?, resolveParents]

theorem get?_addField (field : FieldSite) : (t.addField id field).get? a =
    (t.get? a).map fun e => if a = id then { e with fields := e.fields ++ [field] } else e := by
  rw [addField, get?, List.getElem?_modify, get?]
  by_cases h : a = id
  · simp [h]
  · simp [h, Ne.symm h]

/-- Entries stay where they are when others are added at the end. -/
theorem get?_of_append {u : ClassTable} {es : List ClassEntry} {e : ClassEntry}
    (h : u.classes = t.classes ++ es) (hid : t.get? id = some e) : u.get? id = some e := by
  have hlt : id < t.classes.length := (List.getElem?_eq_some_iff.mp hid).1
  rw [get?, h, List.getElem?_append_left hlt]
  exact hid

theorem get?_append_add {u : ClassTable} {es : List ClassEntry}
    (h : u.classes = t.classes ++ es) (k : Nat) : u.get? (t.size + k) = es[k]? := by
  rw [get?, h, size, List.getElem?_append_right (Nat.le_add_right _ _), Nat.add_sub_cancel_left]

/-! ## §2 What every operation keeps -/

/-- Every name refers to a class that has it. -/
def Named (t : ClassTable) : Prop :=
  ∀ n id, t.lookup n = some id → ∃ e, t.get? id = some e ∧ e.name = n

/-- Every name refers to a class that has it, and every parent has the name that is written as the
superclass. -/
structure Coherent (t : ClassTable) : Prop where
  named : t.Named
  parents : ∀ id e p, t.get? id = some e → e.parent = some p →
    ∃ e', t.get? p = some e' ∧ e.superclass = some e'.name

theorem Coherent.closed (h : t.Coherent) : t.Closed := by
  intro id p hp
  obtain ⟨e, he, hep⟩ := Option.bind_eq_some_iff.mp hp
  obtain ⟨e', he', -⟩ := h.parents id e p he hep
  exact (List.getElem?_eq_some_iff.mp he').1

/-- Resolving makes a table coherent, whatever its parents were before. -/
theorem Named.coherent_resolveParents (h : t.Named) : t.resolveParents.Coherent where
  named := by
    intro n id hn
    obtain ⟨e, he, hname⟩ := h n id hn
    rw [get?_resolveParents, he]
    exact ⟨_, rfl, hname⟩
  parents := by
    intro id e p he hp
    rw [get?_resolveParents] at he
    obtain ⟨old, -, rfl⟩ := Option.map_eq_some_iff.mp he
    obtain ⟨n, hsup, hn⟩ := Option.bind_eq_some_iff.mp hp
    obtain ⟨e', he', rfl⟩ := h n p hn
    rw [get?_resolveParents, he']
    exact ⟨_, rfl, hsup⟩

theorem Named.takeUp (h : t.Named) (m : Module) : (t.takeUp m).Named := by
  obtain ⟨hclasses, -, hlookup, -⟩ := intake_spec t (entriesOf m)
  intro n id hn
  change ((entriesOf m).foldl Intake.add { table := t }).table.lookup n = some id at hn
  rw [hlookup] at hn
  cases hfirst : (entriesOf m).findIdx? (·.name == n) with
  | some j =>
    -- the first class of the module with that name
    rw [hfirst] at hn
    obtain rfl : t.size + j = id := by simpa using hn
    obtain ⟨hj, hname, -⟩ := List.findIdx?_eq_some_iff_getElem.mp hfirst
    exact ⟨(entriesOf m)[j], (get?_append_add hclasses j).trans (by simp [hj]),
      beq_iff_eq.mp hname⟩
  | none =>
    -- a class that was there before
    rw [hfirst] at hn
    obtain ⟨e, he, hname⟩ := h n id (by simpa using hn)
    exact ⟨e, get?_of_append hclasses he, hname⟩

theorem Coherent.registerExternal (h : t.Coherent) (c : HostClass) :
    (t.registerExternal c.name c.superclass c.fields).Coherent := by
  have hclasses : (t.registerExternal c.name c.superclass c.fields).classes =
      t.classes ++ [(Meaning.host c).entry] := rfl
  constructor
  · intro n id hn
    simp only [lookup, ClassTable.registerExternal, register, push, List.lookup_cons] at hn
    split at hn
    · rename_i heq
      obtain rfl : t.size = id := Option.some.inj hn
      exact ⟨_, get?_append_add hclasses 0, (beq_iff_eq.mp heq).symm⟩
    · obtain ⟨e, he, hname⟩ := h.named n id hn
      exact ⟨e, get?_of_append hclasses he, hname⟩
  · intro id e p he hp
    rw [get?, hclasses, List.getElem?_append] at he
    split at he
    · obtain ⟨e', he', hsup⟩ := h.parents id e p he hp
      exact ⟨e', get?_of_append hclasses he', hsup⟩
    · -- the new class has no parent yet
      obtain rfl : e = (Meaning.host c).entry := by
        simpa using List.mem_of_getElem? he
      cases hp

theorem Coherent.addField (h : t.Coherent) (id : ClassId) (field : FieldSite) :
    (t.addField id field).Coherent := by
  -- only the fields of one entry change
  have hkeep : ∀ {a e}, t.get? a = some e → ∃ e', (t.addField id field).get? a = some e' ∧
      e'.name = e.name ∧ e'.superclass = e.superclass ∧ e'.parent = e.parent := by
    intro a e he
    rw [get?_addField, he]
    by_cases ha : a = id <;> simp [ha]
  constructor
  · intro n a hn
    obtain ⟨e, he, hname⟩ := h.named n a hn
    obtain ⟨e', he', hname', -⟩ := hkeep he
    exact ⟨e', he', hname'.trans hname⟩
  · intro a e' p he' hp
    obtain ⟨e, he, -⟩ := Option.map_eq_some_iff.mp ((get?_addField field).symm.trans he')
    obtain ⟨x, hx, -, hsup, hpar⟩ := hkeep he
    obtain rfl : x = e' := Option.some.inj (hx.symm.trans he')
    obtain ⟨q, hq, hqsup⟩ := h.parents a e p he (hpar ▸ hp)
    obtain ⟨q', hq', hname, -⟩ := hkeep hq
    exact ⟨q', hq', by rw [hsup, hqsup, hname]⟩

theorem Coherent.apply (h : t.Coherent) (op : TableOp) : (t.apply op).Coherent := by
  cases op with
  | external c => exact h.registerExternal c
  | module m => exact (h.named.takeUp m).coherent_resolveParents
  | resolve => exact h.named.coherent_resolveParents
  | addField id field => exact h.addField id field

/-- Every table in use is coherent. -/
theorem coherent_ofOps (ops : List TableOp) : (ofOps ops).Coherent := by
  induction ops using List.reverseRecOn with
  | nil =>
    constructor
    · intro n id hn
      cases hn
    · intro id e p he
      cases he
  | append_singleton ops op ih =>
    rw [ofOps, List.foldl_append]
    exact ih.apply op

/-! ## §3 The inheritance order of a table in use -/

/-- What is expected of classes that are sorted by inheritance. -/
structure SortsByInheritance (t : ClassTable) (o : InheritanceOrder) : Prop where
  /-- Each class of the module is listed once, and no other class is listed. -/
  partition : (o.order ++ o.cycles ++ o.blocked).Perm ((List.range t.size).filter (t.InModule ·))
  /-- On a loop are the classes that inherit from themselves. -/
  cycles : ∀ id, id ∈ o.cycles ↔ t.InModule id ∧ t.Inherits id id
  /-- Blocked are the other classes that inherit from such a class. -/
  blocked : ∀ id, id ∈ o.blocked ↔
    t.InModule id ∧ ¬ t.Inherits id id ∧ ∃ a, t.Inherits id a ∧ t.Inherits a a
  /-- In order are the classes whose chain of parents leads to a class without parent. -/
  order : ∀ id, id ∈ o.order ↔
    t.InModule id ∧ ∃ root, (root = id ∨ t.Inherits id root) ∧ t.parentOf root = none
  /-- They are sorted by the number of ancestors, then by position, then by registration. -/
  sorted : o.order.Pairwise t.Precedes
  /-- So ancestors stand before the classes that inherit from them. -/
  ancestorsFirst : ∀ id ∈ o.order, ∀ a, t.InModule a → t.Inherits id a →
    a ∈ o.order ∧ o.order.idxOf a < o.order.idxOf id
  cyclesSorted : o.cycles.Pairwise (· < ·)
  blockedSorted : o.blocked.Pairwise (· < ·)

/-- In every table in use, the inheritance order sorts the classes of the module by their parent
links. -/
theorem sortsByInheritance_ofOps (ops : List TableOp) :
    (ofOps ops).SortsByInheritance (ofOps ops).inheritanceOrder := by
  have hclosed : (ofOps ops).Closed := (coherent_ofOps ops).closed
  exact {
    partition := perm_inheritanceOrder hclosed
    cycles := fun id => mem_cycles_iff hclosed
    blocked := fun id => mem_blocked_iff hclosed
    order := fun id => mem_order_iff hclosed
    sorted := pairwise_order hclosed
    ancestorsFirst := fun id hid a ha hinh => idxOf_lt_of_inherits hclosed hid ha hinh
    cyclesSorted := cycles_eq hclosed ▸ pairwise_moduleClasses _
    blockedSorted := blocked_eq hclosed ▸ pairwise_moduleClasses _ }

end ClassTable

end FieldPromotion
