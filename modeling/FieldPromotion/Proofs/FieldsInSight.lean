import FieldPromotion.Proofs.Outcome
import FieldPromotion.Proofs.Tables

/-!
# Fields in sight of a class

What a class of a table in use inherits, said by parent links alone. The ancestors of a class are all
classes that its parent links lead to, whether the links end at a root or run into a loop, and the
index of a class finds a field name in the nearest class that has a field of that name.
-/

namespace FieldPromotion

namespace ClassTable

variable {t : ClassTable} {id c : ClassId} {name : String} {o : FieldOrigin} {k : Nat}

/-! ## §1 Ancestors -/

/-- What is expected of the list of the ancestors of a class. -/
structure ListsAncestors (t : ClassTable) (id : ClassId) (as : List ClassId) : Prop where
  length_le : as.length ≤ t.size
  mem_iff : ∀ a, a ∈ as ↔ t.Inherits id a
  /-- Each ancestor is the parent of the class before it, so the nearest comes first. -/
  nearestFirst : (id :: as).IsChain fun a b => t.parentOf a = some b
  /-- No class is listed twice, unless the parent links run into a loop. -/
  nodup : (∀ a, t.Inherits id a → ¬ t.Inherits a a) → (id :: as).Nodup

/-- A chain has no more classes than it is allowed to. -/
theorem length_chain_le (t : ClassTable) (n : Nat) (s : Option ClassId) :
    (t.chain n s).length ≤ n := by
  induction n generalizing s with
  | zero => simp [chain]
  | succ n ih =>
    cases s with
    | none => simp [chain]
    | some id => simpa [chain] using ih (t.parentOf id)

/-- Each class of a chain is the parent of the one before it. -/
theorem isChain_chain (t : ClassTable) (n : Nat) (id : ClassId) :
    (id :: t.chain n (t.parentOf id)).IsChain fun a b => t.parentOf a = some b := by
  induction n generalizing id with
  | zero => simp [chain]
  | succ n ih =>
    cases hp : t.parentOf id with
    | none => simp [chain]
    | some p =>
      rw [chain, List.isChain_cons_cons]
      exact ⟨hp, ih p⟩

/-- The list of ancestors is as it should be, with and without loops. -/
theorem listsAncestors_ancestors (ht : t.Closed) (hid : id < t.size) :
    t.ListsAncestors id (t.ancestors id) where
  length_le := t.length_chain_le t.size (t.parentOf id)
  mem_iff a := mem_ancestors_iff_inherits ht hid
  nearestFirst := t.isChain_chain t.size id
  nodup := by
    intro hloop
    -- without a loop above it the walk ends
    have hend : (t.ancestors id).length < t.size := by
      rw [length_ancestors_lt_iff ht hid]
      by_contra hnever
      push Not at hnever
      obtain ⟨a, ha, hself⟩ := (exists_loop_iff ht hid).mpr hnever
      exact hloop a ha hself
    apply List.nodup_cons.mpr
    refine ⟨?_, nodup_ancestors hend⟩
    rw [mem_ancestors_iff_inherits ht hid]
    intro hself
    exact hloop id hself hself

/-! ## §2 Fields of one class -/

/-- A class has a field of some name. -/
def HasField (t : ClassTable) (id : ClassId) (name : String) : Prop :=
  ∃ e f, t.get? id = some e ∧ f ∈ e.fields ∧ f.name = name

/-- A class offers the first of its fields with a name. -/
theorem lookup_origins (t : ClassTable) (id : ClassId) (name : String) :
    (t.origins id).lookup name = (t.get? id).bind fun e =>
      (e.fields.find? (·.name == name)).map fun f =>
        { cls := id, className := e.name, span := f.span } := by
  unfold origins
  cases t.get? id with
  | none => rfl
  | some e => exact lookup_map_sites e.fields _ name

/-- What it offers says where the field comes from. -/
theorem lookup_origins_eq_some_iff : (t.origins id).lookup name = some o ↔
    ∃ e f, o.cls = id ∧ t.get? id = some e ∧ e.fields.find? (·.name == name) = some f ∧
      o.className = e.name ∧ o.span = f.span := by
  rw [lookup_origins]
  constructor
  · intro h
    obtain ⟨e, he, h⟩ := Option.bind_eq_some_iff.mp h
    obtain ⟨f, hf, rfl⟩ := Option.map_eq_some_iff.mp h
    exact ⟨e, f, rfl, he, hf, rfl, rfl⟩
  · intro h
    obtain ⟨e, f, rfl, he, hf, hname, hspan⟩ := h
    rw [he, Option.bind_some, hf, Option.map_some, ← hname, ← hspan]

/-- It offers nothing for a name that no field has. -/
theorem lookup_origins_eq_none_iff :
    (t.origins id).lookup name = none ↔ ¬ t.HasField id name := by
  rw [lookup_origins, HasField]
  cases t.get? id with
  | none => simp
  | some e => simp

/-! ## §3 The index of a class -/

/-- What is expected of the index of a class. -/
structure ShowsFields (t : ClassTable) (id : ClassId) (index : FieldIndex) : Prop where
  /-- It has the field names of the class and of the classes that it inherits from. -/
  contains_iff : ∀ name, index.contains name = true ↔
    ∃ c, (c = id ∨ t.Inherits id c) ∧ t.HasField c name
  /-- A name stands for the first field of that name in the first class that has one, on the way from
  the class upwards. -/
  get?_iff : ∀ name o, index.get? name = some o ↔ ∃ k e f, t.climb k (some id) = some o.cls ∧
    (∀ j < k, ∀ c, t.climb j (some id) = some c → ¬ t.HasField c name) ∧
    t.get? o.cls = some e ∧ e.fields.find? (·.name == name) = some f ∧
    o.className = e.name ∧ o.span = f.span

/-- The nearest class with a field of the name decides. -/
theorem get?_fieldIndex (t : ClassTable) (id : ClassId) (name : String) :
    (t.fieldIndex id).get? name =
      (id :: t.ancestors id).findSome? fun c => (t.origins c).lookup name :=
  lookup_flatMap t.origins _ name

/-- The class and its ancestors, step by step. -/
theorem getElem?_cons_ancestors (t : ClassTable) (id : ClassId) (hk : k ≤ t.size) :
    (id :: t.ancestors id)[k]? = t.climb k (some id) := by
  cases k with
  | zero => rfl
  | succ k => rw [List.getElem?_cons_succ, getElem?_ancestors, if_pos (Nat.lt_of_succ_le hk)]

/-- What a walk meets for the first time, it meets within as many steps as there are classes. -/
theorem le_size_of_first (ht : t.Closed) (hid : id < t.size) (hc : t.climb k (some id) = some c)
    (hfirst : ∀ j < k, t.climb j (some id) ≠ some c) : k ≤ t.size := by
  cases k with
  | zero => exact Nat.zero_le _
  | succ k =>
    obtain ⟨j, hj, hjc⟩ := exists_climb_lt_size ht hid hc
    by_contra hlt
    exact hfirst (j + 1) (by omega) hjc

/-- The index of a class shows its fields and those that it inherits. -/
theorem showsFields_fieldIndex (ht : t.Closed) (hid : id < t.size) :
    t.ShowsFields id (t.fieldIndex id) where
  contains_iff := by
    intro name
    rw [FieldIndex.contains, get?_fieldIndex, List.findSome?_isSome_iff]
    simp only [List.mem_cons, mem_ancestors_iff_inherits ht hid, Option.isSome_iff_ne_none, ne_eq,
      lookup_origins_eq_none_iff, not_not]
  get?_iff := by
    intro name o
    rw [get?_fieldIndex, findSome?_eq_some_iff_getElem?]
    constructor
    · intro h
      obtain ⟨k, c, hk, ho, hfirst⟩ := h
      obtain ⟨e, f, rfl, he, hf, hname, hspan⟩ := lookup_origins_eq_some_iff.mp ho
      -- the list of ancestors has no place beyond the size of the table
      have hsize : k ≤ t.size := by
        have hlt := (List.getElem?_eq_some_iff.mp hk).1
        have hlen := t.length_chain_le t.size (t.parentOf id)
        rw [List.length_cons] at hlt
        exact Nat.le_trans (Nat.lt_succ_iff.mp hlt) hlen
      refine ⟨k, e, f, ?_, ?_, he, hf, hname, hspan⟩
      · rw [← getElem?_cons_ancestors t id hsize]
        exact hk
      · intro j hj b hb
        rw [← getElem?_cons_ancestors t id (by omega)] at hb
        exact lookup_origins_eq_none_iff.mp (hfirst j hj b hb)
    · intro h
      obtain ⟨k, e, f, hk, hfirst, he, hf, hname, hspan⟩ := h
      -- the class has a field of the name, so the first such class is met within the size of the
      -- table
      have hfield : t.HasField o.cls name :=
        ⟨e, f, he, List.mem_of_find?_eq_some hf, by simpa using List.find?_some hf⟩
      have hsize : k ≤ t.size := by
        apply le_size_of_first ht hid hk
        intro j hj hmet
        exact hfirst j hj _ hmet hfield
      refine ⟨k, o.cls, ?_, lookup_origins_eq_some_iff.mpr ⟨e, f, rfl, he, hf, hname, hspan⟩, ?_⟩
      · rw [getElem?_cons_ancestors t id hsize, hk]
      · intro j hj b hb
        rw [getElem?_cons_ancestors t id (by omega)] at hb
        exact lookup_origins_eq_none_iff.mpr (hfirst j hj b hb)

/-! ## §4 Tables in use -/

/-- In every table in use, the ancestors of a class are the classes that its parent links lead to, and
its index shows the nearest field of every name, also when the parent links run into a loop. -/
theorem listsAncestors_showsFields_ofOps (ops : List TableOp) (id : ClassId)
    (hid : id < (ofOps ops).size) :
    (ofOps ops).ListsAncestors id ((ofOps ops).ancestors id) ∧
      (ofOps ops).ShowsFields id ((ofOps ops).fieldIndex id) := by
  have hclosed : (ofOps ops).Closed := (coherent_ofOps ops).closed
  exact ⟨listsAncestors_ancestors hclosed hid, showsFields_fieldIndex hclosed hid⟩

/-- A class below a loop of two others, both of which have a field `size`. -/
def belowLoop : List TableOp :=
  [.external { name := "Tail", superclass := some "Left", fields := [{ name := "end" }] },
    .external { name := "Left", superclass := some "Right", fields := [{ name := "size" }] },
    .external { name := "Right", superclass := some "Left", fields := [{ name := "size" }] },
    .resolve]

theorem listsAncestors_showsFields_belowLoop :
    0 < (ofOps belowLoop).size ∧ (ofOps belowLoop).ancestors 0 = [1, 2, 1] ∧
      (ofOps belowLoop).ListsAncestors 0 ((ofOps belowLoop).ancestors 0) ∧
      (ofOps belowLoop).ShowsFields 0 ((ofOps belowLoop).fieldIndex 0) :=
  ⟨by decide, by decide, listsAncestors_showsFields_ofOps belowLoop 0 (by decide)⟩

end ClassTable

end FieldPromotion
