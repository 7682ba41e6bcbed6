import FieldPromotion.Proofs.Marking
import Mathlib.Data.Set.Card
import Mathlib.Logic.Relation

/-!
# Classes by standing

What the inheritance order says of a table in which every parent is a class of the table. Parent
links form a relation, and the standing of a class is read off it: a class is on a loop when it
inherits from itself, it is blocked when it inherits from a class on a loop, and otherwise it is
below a root. The classes below a root come with fewer ancestors first, so that ancestors stand
before the classes that inherit from them.
-/

namespace FieldPromotion.ClassTable

variable {t : ClassTable} {id a b : ClassId} {k : Nat}

/-! ## §1 Inheritance as a relation -/

/-- `t.Inherits a b`: one or more parent links lead from `a` to `b`. -/
def Inherits (t : ClassTable) : ClassId → ClassId → Prop :=
  Relation.TransGen fun a b => t.parentOf a = some b

/-- A class inherits from those that a walk comes to. -/
theorem inherits_iff_climb : t.Inherits id a ↔ ∃ k, t.climb (k + 1) (some id) = some a := by
  constructor
  · intro h
    induction h with
    | single hab => exact ⟨0, hab⟩
    -- one more link is one more step
    | tail _ hbc ih =>
      obtain ⟨k, hk⟩ := ih
      refine ⟨k + 1, ?_⟩
      rw [climb_succ_bind, hk, Option.bind_some, hbc]
  · intro h
    obtain ⟨k, hk⟩ := h
    induction k generalizing a with
    | zero => exact .single hk
    | succ k ih =>
      rw [climb_succ_bind] at hk
      obtain ⟨b, hb, hba⟩ := Option.bind_eq_some_iff.mp hk
      exact .tail (ih hb) hba

/-- The ancestors are the classes that a class inherits from. -/
theorem mem_ancestors_iff_inherits (ht : t.Closed) (hid : id < t.size) :
    a ∈ t.ancestors id ↔ t.Inherits id a := by
  rw [mem_ancestors_iff ht hid, inherits_iff_climb]

/-- A walk ends at a class without parent. -/
theorem exists_climb_eq_none_iff : (∃ k, t.climb k (some id) = none) ↔
    ∃ root, (root = id ∨ t.Inherits id root) ∧ t.parentOf root = none := by
  constructor
  · intro h
    obtain ⟨k, hk⟩ := h
    induction k with
    | zero => cases hk
    | succ k ih =>
      rw [climb_succ_bind] at hk
      -- the last class before the end of the walk is the root
      cases hroot : t.climb k (some id) with
      | none => exact ih hroot
      | some root =>
        rw [hroot, Option.bind_some] at hk
        refine ⟨root, ?_, hk⟩
        cases k with
        | zero => exact Or.inl (Option.some.inj hroot).symm
        | succ k => exact Or.inr (inherits_iff_climb.mpr ⟨k, hroot⟩)
  · intro h
    obtain ⟨root, hreach, hroot⟩ := h
    rcases hreach with rfl | hreach
    · exact ⟨1, hroot⟩
    · obtain ⟨k, hk⟩ := inherits_iff_climb.mp hreach
      exact ⟨k + 2, by rw [climb_succ_bind, hk, Option.bind_some, hroot]⟩

/-- A walk that does not end leads to a class on a loop. -/
theorem exists_loop_iff (ht : t.Closed) (hid : id < t.size) :
    (∃ a, t.Inherits id a ∧ t.Inherits a a) ↔ ∀ k, t.climb k (some id) ≠ none := by
  constructor
  · intro h k
    obtain ⟨a, ha, hloop⟩ := h
    obtain ⟨i, hi⟩ := inherits_iff_climb.mp ha
    obtain ⟨d, hd⟩ := inherits_iff_climb.mp hloop
    have hagain : t.climb (i + 1 + (d + 1)) (some id) = some a := by
      rw [climb_add, hi, hd]
    apply climb_ne_none_of_repeat (i := i + 1) (j := i + 1 + (d + 1)) (by omega)
    · rw [hi, hagain]
    · simp [hagain]
  · intro h
    -- some class is met twice
    obtain ⟨i, j, hij, -, heq⟩ := exists_repeat ht hid (h t.size)
    obtain ⟨d, rfl⟩ := Nat.exists_eq_add_of_lt hij
    obtain ⟨a, ha⟩ := Option.ne_none_iff_exists'.mp (h i)
    have hagain : t.climb (i + d + 1) (some id) = some a := by
      rw [← heq, ha]
    refine ⟨a, inherits_iff_climb.mpr ⟨i + d, hagain⟩, inherits_iff_climb.mpr ⟨d, ?_⟩⟩
    rw [Nat.add_assoc, climb_add, ha] at hagain
    exact hagain

/-! ## §2 The number of ancestors -/

/-- The number of classes that a class inherits from. -/
noncomputable def depth (t : ClassTable) (id : ClassId) : Nat :=
  {a | t.Inherits id a}.ncard

/-- On a walk that ends, no class is met twice. -/
theorem nodup_ancestors (hend : (t.ancestors id).length < t.size) : (t.ancestors id).Nodup := by
  rw [List.nodup_iff_getElem?_ne_getElem?]
  intro i j hij hj heq
  rw [getElem?_ancestors_of_end hend, getElem?_ancestors_of_end hend] at heq
  have hsome : t.climb (j + 1) (some id) ≠ none := by
    rw [← getElem?_ancestors_of_end hend]
    simp [hj]
  apply climb_ne_none_of_repeat (Nat.succ_lt_succ hij) heq hsome ((t.ancestors id).length + 1)
  rw [← getElem?_ancestors_of_end hend]
  simp

/-- On a walk that ends, the number of classes met is the number of classes inherited from. -/
theorem depth_eq_length (ht : t.Closed) (hid : id < t.size)
    (hend : (t.ancestors id).length < t.size) : t.depth id = (t.ancestors id).length := by
  -- no ancestor is met twice, so counting the list counts the set
  have hset : {a | t.Inherits id a} = (t.ancestors id).toFinset := by
    ext a
    simp [mem_ancestors_iff_inherits ht hid]
  rw [depth, hset, Set.ncard_coe_finset, List.toFinset_card_of_nodup (nodup_ancestors hend)]

/-- What is met on a walk that ends has the rest of the walk above it. -/
theorem ancestors_of_climb (ht : t.Closed) (hid : id < t.size)
    (hend : (t.ancestors id).length < t.size) (ha : t.climb k (some id) = some a) :
    t.ancestors a = (t.ancestors id).drop k := by
  have hsize : a < t.size := climb_lt_size ht hid ha
  have hclimb : ∀ i, t.climb i (some a) = t.climb (k + i) (some id) := by
    intro i
    rw [climb_add, ha]
  -- the walk from further up ends no later
  have henda : (t.ancestors a).length < t.size := by
    rw [length_ancestors_lt_iff ht hsize]
    obtain ⟨n, hn⟩ := (length_ancestors_lt_iff ht hid).mp hend
    refine ⟨n, ?_⟩
    rw [hclimb]
    exact climb_eq_none_of_le hn (by omega)
  refine List.ext_getElem? fun i => ?_
  rw [List.getElem?_drop, getElem?_ancestors_of_end henda, getElem?_ancestors_of_end hend, hclimb,
    Nat.add_assoc]

/-- Whoever inherits has more ancestors. -/
theorem depth_lt_of_inherits (ht : t.Closed) (hid : id < t.size)
    (hend : (t.ancestors id).length < t.size) (ha : t.Inherits id a) :
    (t.ancestors a).length < t.size ∧ t.depth a < t.depth id := by
  obtain ⟨k, hk⟩ := inherits_iff_climb.mp ha
  have hlen : (t.ancestors a).length = (t.ancestors id).length - (k + 1) := by
    rw [ancestors_of_climb ht hid hend hk, List.length_drop]
  have hpos : k < (t.ancestors id).length := by
    rw [← getElem?_ancestors_of_end hend] at hk
    exact (List.getElem?_eq_some_iff.mp hk).1
  have henda : (t.ancestors a).length < t.size := by omega
  rw [depth_eq_length ht hid hend, depth_eq_length ht (climb_lt_size ht hid hk) henda]
  exact ⟨henda, by omega⟩

/-! ## §3 Classes of the module -/

/-- A class that is declared in a module, and not by a host. -/
def InModule (t : ClassTable) (id : ClassId) : Prop :=
  ((t.get? id).bind ClassEntry.statement).isSome

instance (t : ClassTable) : DecidablePred t.InModule :=
  fun _ => inferInstanceAs (Decidable (_ = true))

/-- The position of a class in its module. -/
def position (t : ClassTable) (id : ClassId) : Nat :=
  ((t.get? id).bind ClassEntry.statement).getD 0

theorem InModule.lt_size (h : t.InModule id) : id < t.size := by
  by_contra hlt
  have hnone : t.get? id = none := List.getElem?_eq_none (Nat.le_of_not_lt hlt)
  simp [InModule, hnone] at h

/-- The listed classes are those of the module with a standing of the kind asked for. -/
theorem mem_moduleClasses_iff {p : Standing → Bool} :
    id ∈ t.moduleClasses p ↔ t.InModule id ∧ p (t.standing id) = true := by
  simp only [moduleClasses, List.mem_filter, List.mem_range, Bool.and_eq_true]
  constructor
  · intro h
    exact h.2
  · intro h
    exact ⟨h.1.lt_size, h⟩

/-- They come by their position in the table. -/
theorem pairwise_moduleClasses (p : Standing → Bool) : (t.moduleClasses p).Pairwise (· < ·) :=
  List.pairwise_lt_range.filter _

/-- The order is by rank, as it follows from the standings. -/
theorem order_eq (ht : t.Closed) : t.inheritanceOrder.order =
    (((List.range t.size).filterMap t.rank?).mergeSort Rank.le).map Rank.id := by
  rw [inheritanceOrder_eq ht]

theorem cycles_eq (ht : t.Closed) :
    t.inheritanceOrder.cycles = t.moduleClasses (· == .cyclic) := by
  rw [inheritanceOrder_eq ht]

theorem blocked_eq (ht : t.Closed) :
    t.inheritanceOrder.blocked = t.moduleClasses (· == .blocked) := by
  rw [inheritanceOrder_eq ht]

/-- The classes of the module on a loop. -/
theorem mem_cycles_iff (ht : t.Closed) :
    id ∈ t.inheritanceOrder.cycles ↔ t.InModule id ∧ t.Inherits id id := by
  rw [cycles_eq ht, mem_moduleClasses_iff, beq_iff_eq]
  refine and_congr_right fun hid => ?_
  rw [standing_eq_cyclic_iff ht hid.lt_size, inherits_iff_climb]

/-- The classes of the module below a loop. -/
theorem mem_blocked_iff (ht : t.Closed) : id ∈ t.inheritanceOrder.blocked ↔
    t.InModule id ∧ ¬ t.Inherits id id ∧ ∃ a, t.Inherits id a ∧ t.Inherits a a := by
  rw [blocked_eq ht, mem_moduleClasses_iff, beq_iff_eq]
  refine and_congr_right fun hid => ?_
  rw [standing_eq_blocked_iff ht hid.lt_size, exists_loop_iff ht hid.lt_size, inherits_iff_climb,
    not_exists, and_comm]

/-! ## §4 Ranks -/

/-- Comparing ranks part by part is transitive. -/
theorem Rank.le_trans (a b c : Rank) (hab : a.le b = true) (hbc : b.le c = true) :
    a.le c = true := by
  simp only [Rank.le, Bool.or_eq_true, decide_eq_true_iff, Bool.and_eq_true, beq_iff_eq] at *
  grind

/-- Any two ranks can be compared. -/
theorem Rank.le_total (a b : Rank) : (a.le b || b.le a) = true := by
  simp only [Rank.le, Bool.or_eq_true, decide_eq_true_iff, Bool.and_eq_true, beq_iff_eq]
  grind

/-- A class of the module has a rank when its walk ends. -/
theorem rank?_eq_some_iff {r : Rank} : t.rank? id = some r ↔
    t.InModule id ∧ (t.ancestors id).length < t.size ∧
      r = { depth := (t.ancestors id).length, statement := t.position id, id := id } := by
  unfold rank? InModule position
  constructor
  · intro h
    split at h
    · rename_i i n hi hn
      obtain ⟨hend, rfl⟩ := standing_eq_rooted_iff.mp hn
      simp [hi, hend, ← Option.some.inj h]
    · cases h
  · intro h
    obtain ⟨hid, hend, rfl⟩ := h
    obtain ⟨i, hi⟩ := Option.isSome_iff_exists.mp hid
    simp [hi, standing_of_end hend]

/-- The scheduled classes are the classes of the module whose walk ends. -/
theorem mem_order_iff_end (ht : t.Closed) : id ∈ t.inheritanceOrder.order ↔
    t.InModule id ∧ (t.ancestors id).length < t.size := by
  simp only [order_eq ht, List.mem_map, List.mem_mergeSort, List.mem_filterMap,
    List.mem_range, rank?_eq_some_iff]
  constructor
  · intro h
    obtain ⟨r, ⟨id', -, hid, hend, rfl⟩, rfl⟩ := h
    exact ⟨hid, hend⟩
  · intro h
    exact ⟨_, ⟨id, h.1.lt_size, h.1, h.2, rfl⟩, rfl⟩

/-- The scheduled classes, by the parent links. -/
theorem mem_order_iff (ht : t.Closed) : id ∈ t.inheritanceOrder.order ↔
    t.InModule id ∧ ∃ root, (root = id ∨ t.Inherits id root) ∧ t.parentOf root = none := by
  rw [mem_order_iff_end ht]
  refine and_congr_right fun hid => ?_
  rw [length_ancestors_lt_iff ht hid.lt_size, exists_climb_eq_none_iff]

/-- Classes with fewer ancestors come first, then those that stand earlier in their module, then
those that were registered earlier. -/
def Precedes (t : ClassTable) (a b : ClassId) : Prop :=
  t.depth a < t.depth b ∨ t.depth a = t.depth b ∧
    (t.position a < t.position b ∨ t.position a = t.position b ∧ a < b)

theorem Precedes.ne (h : t.Precedes a b) : a ≠ b := by
  rintro rfl
  simp [Precedes] at h

/-- Ranks that are in order belong to classes that are in order. -/
theorem pairwise_order (ht : t.Closed) : t.inheritanceOrder.order.Pairwise t.Precedes := by
  -- a rank tells which class it belongs to, so no two classes have the same
  have hnodup : ((List.range t.size).filterMap t.rank?).Nodup := by
    refine List.Pairwise.filterMap _ ?_ List.nodup_range
    intro a b hab r hr r' hr' heq
    obtain ⟨-, -, rfl⟩ := rank?_eq_some_iff.mp hr
    obtain ⟨-, -, rfl⟩ := rank?_eq_some_iff.mp hr'
    exact hab (congrArg Rank.id heq)
  have hsorted := @List.pairwise_mergeSort _ Rank.le Rank.le_trans Rank.le_total
    ((List.range t.size).filterMap t.rank?)
  have hdistinct := (List.mergeSort_perm _ Rank.le).nodup_iff.mpr hnodup
  rw [order_eq ht, List.pairwise_map]
  refine (hsorted.and hdistinct).imp_of_mem ?_
  intro r r' hr hr' hle
  rw [List.mem_mergeSort, List.mem_filterMap] at hr hr'
  obtain ⟨a, -, hr⟩ := hr
  obtain ⟨b, -, hr'⟩ := hr'
  obtain ⟨ha, henda, rfl⟩ := rank?_eq_some_iff.mp hr
  obtain ⟨hb, hendb, rfl⟩ := rank?_eq_some_iff.mp hr'
  simp only [Rank.le, Bool.or_eq_true, decide_eq_true_iff, Bool.and_eq_true, beq_iff_eq] at hle
  have hne : a ≠ b := by
    intro hab
    exact hle.2 (by rw [hab])
  rw [Precedes, depth_eq_length ht ha.lt_size henda, depth_eq_length ht hb.lt_size hendb]
  grind

/-! ## §5 Ancestors first -/

/-- A class of the module from which a scheduled class inherits is scheduled before it. -/
theorem idxOf_lt_of_inherits (ht : t.Closed) (hid : id ∈ t.inheritanceOrder.order)
    (ha : t.InModule a) (hinh : t.Inherits id a) :
    a ∈ t.inheritanceOrder.order ∧
      t.inheritanceOrder.order.idxOf a < t.inheritanceOrder.order.idxOf id := by
  obtain ⟨hmod, hend⟩ := (mem_order_iff_end ht).mp hid
  obtain ⟨henda, hdepth⟩ := depth_lt_of_inherits ht hmod.lt_size hend hinh
  have hmem : a ∈ t.inheritanceOrder.order := (mem_order_iff_end ht).mpr ⟨ha, henda⟩
  refine ⟨hmem, ?_⟩
  by_contra hnot
  have hne : a ≠ id := by
    rintro rfl
    exact Nat.lt_irrefl _ hdepth
  -- otherwise the class itself would precede its ancestor
  have hlt : t.inheritanceOrder.order.idxOf id < t.inheritanceOrder.order.idxOf a := by
    refine Nat.lt_of_le_of_ne (Nat.le_of_not_lt hnot) fun heq => hne ?_
    exact ((List.idxOf_inj hid).mp heq).symm
  have hpre := List.pairwise_iff_getElem.mp (pairwise_order ht) _ _
    (List.idxOf_lt_length_of_mem hid) (List.idxOf_lt_length_of_mem hmem) hlt
  rw [List.getElem_idxOf, List.getElem_idxOf] at hpre
  unfold Precedes at hpre
  omega

/-- Every class of the module has one standing, and is listed once. -/
theorem perm_inheritanceOrder (ht : t.Closed) :
    (t.inheritanceOrder.order ++ t.inheritanceOrder.cycles ++ t.inheritanceOrder.blocked).Perm
      ((List.range t.size).filter (t.InModule ·)) := by
  have horder : ∀ {id}, id ∈ t.inheritanceOrder.order ↔
      t.InModule id ∧ ∃ n, t.standing id = .rooted n := by
    intro id
    simp [mem_order_iff_end ht, standing_eq_rooted_iff]
  have hnodup : ∀ p, (t.moduleClasses p).Nodup := fun p =>
    (pairwise_moduleClasses p).imp Nat.ne_of_lt
  -- each of the three lists has no class twice, and the standing tells them apart
  have hordered : t.inheritanceOrder.order.Nodup := (pairwise_order ht).imp Precedes.ne
  rw [cycles_eq ht, blocked_eq ht, List.perm_ext_iff_of_nodup]
  · intro id
    simp only [List.mem_append, horder, mem_moduleClasses_iff, beq_iff_eq, List.mem_filter,
      List.mem_range, decide_eq_true_iff]
    constructor
    · intro h
      rcases h with (h | h) | h <;> exact ⟨h.1.lt_size, h.1⟩
    · intro h
      cases hs : t.standing id with
      | rooted n => exact Or.inl (Or.inl ⟨h.2, n, rfl⟩)
      | cyclic => exact Or.inl (Or.inr ⟨h.2, rfl⟩)
      | blocked => exact Or.inr ⟨h.2, rfl⟩
  · -- a class has only one standing
    rw [List.nodup_append, List.nodup_append]
    refine ⟨⟨hordered, hnodup _, ?_⟩, hnodup _, ?_⟩
    · intro a ha b hb heq
      subst heq
      simp_all [mem_moduleClasses_iff]
    · intro a ha b hb heq
      subst heq
      simp only [List.mem_append, horder, mem_moduleClasses_iff, beq_iff_eq] at ha hb
      rcases ha with ⟨-, n, ha⟩ | ha
      · simp [hb.2] at ha
      · simp [hb.2] at ha
  · exact List.nodup_range.filter _

end FieldPromotion.ClassTable
