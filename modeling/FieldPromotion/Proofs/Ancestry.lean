import FieldPromotion.Classes.Order
import Mathlib.Data.Fintype.Pigeonhole

/-!
# Chains of parents

Following parents upwards from a class either ends at a class without parent or goes round a loop.
The table cuts such a walk off when it has as many items as there are classes. This module shows
that nothing is lost by that: the walk meets every class that can be met at all, and it is shorter
than the table exactly when it ends. How a class stands can be read off its ancestors.
-/

namespace FieldPromotion

namespace ClassTable

variable {t : ClassTable} {id a : ClassId} {s : Option ClassId} {i j k n : Nat}

/-! ## §1 Climbing -/

/-- What is met after following `k` parents, if the walk has not ended before. -/
def climb (t : ClassTable) : Nat → Option ClassId → Option ClassId
  | 0, s => s
  | k + 1, s => t.climb k (s.bind t.parentOf)

/-- Every parent is a class of the table. -/
def Closed (t : ClassTable) : Prop :=
  ∀ id p, t.parentOf id = some p → p < t.size

@[simp] theorem climb_zero : t.climb 0 s = s := rfl

theorem climb_succ : t.climb (k + 1) s = t.climb k (s.bind t.parentOf) := rfl

/-- A walk can be made in two parts. -/
theorem climb_add (j k : Nat) (s : Option ClassId) :
    t.climb (j + k) s = t.climb k (t.climb j s) := by
  induction j generalizing s with
  | zero => simp
  | succ j ih => rw [Nat.add_right_comm, climb_succ, climb_succ, ih]

/-- The last step of a walk goes to the parent of the class before it. -/
theorem climb_succ_bind (k : Nat) (s : Option ClassId) :
    t.climb (k + 1) s = (t.climb k s).bind t.parentOf :=
  climb_add k 1 s

@[simp] theorem climb_none : t.climb k none = none := by
  induction k with
  | zero => rfl
  | succ k ih => rw [climb_succ, Option.bind_none, ih]

/-- A walk that has ended does not go on. -/
theorem climb_eq_none_of_le (h : t.climb j s = none) (hjk : j ≤ k) : t.climb k s = none := by
  obtain ⟨d, rfl⟩ := Nat.exists_eq_add_of_le hjk
  rw [climb_add, h, climb_none]

/-- A walk stays in the table. -/
theorem climb_lt_size (ht : t.Closed) (hid : id < t.size) (h : t.climb k (some id) = some a) :
    a < t.size := by
  cases k with
  | zero => simp_all
  | succ k =>
    rw [climb_succ_bind] at h
    obtain ⟨b, _, hb⟩ := Option.bind_eq_some_iff.mp h
    exact ht b a hb

/-! ## §2 Loops -/

/-- A walk that meets some class twice never ends. -/
theorem climb_ne_none_of_repeat (hij : i < j) (heq : t.climb i s = t.climb j s)
    (hj : t.climb j s ≠ none) (k : Nat) : t.climb k s ≠ none := by
  induction k using Nat.strong_induction_on with
  | _ k ih =>
    rcases Nat.lt_or_ge j k with hjk | hkj
    · -- one round of the loop can be left out
      obtain ⟨d, rfl⟩ := Nat.exists_eq_add_of_le (Nat.le_of_lt hjk)
      rw [climb_add, ← heq, ← climb_add]
      exact ih (i + d) (by omega)
    · exact fun hk => hj (climb_eq_none_of_le hk hkj)

/-- A walk of as many steps as there are classes meets some class twice. -/
theorem exists_repeat (ht : t.Closed) (hid : id < t.size)
    (h : t.climb t.size (some id) ≠ none) :
    ∃ i j, i < j ∧ j ≤ t.size ∧ t.climb i (some id) = t.climb j (some id) := by
  -- the walk has one class more than the table
  have hsome : ∀ k : Fin (t.size + 1), ∃ a : Fin t.size, t.climb k (some id) = some a.val := by
    intro k
    cases hk : t.climb k (some id) with
    | none => exact absurd (climb_eq_none_of_le hk (Nat.lt_succ_iff.mp k.isLt)) h
    | some a => exact ⟨⟨a, climb_lt_size ht hid hk⟩, rfl⟩
  choose f hf using hsome
  obtain ⟨x, y, hne, hxy⟩ := Fintype.exists_ne_map_eq_of_card_lt f (by simp)
  have heq : t.climb x (some id) = t.climb y (some id) := by rw [hf x, hf y, hxy]
  rcases Nat.lt_or_gt_of_ne (fun h => hne (Fin.ext h)) with hlt | hgt
  · exact ⟨x, y, hlt, Nat.lt_succ_iff.mp y.isLt, heq⟩
  · exact ⟨y, x, hgt, Nat.lt_succ_iff.mp x.isLt, heq.symm⟩

/-- Whatever a walk meets, it meets within as many steps as there are classes. -/
theorem exists_climb_lt_size (ht : t.Closed) (hid : id < t.size)
    (h : t.climb (k + 1) (some id) = some a) :
    ∃ j, j < t.size ∧ t.climb (j + 1) (some id) = some a := by
  induction k using Nat.strong_induction_on with
  | _ k ih =>
    rcases Nat.lt_or_ge k t.size with hk | hk
    · exact ⟨k, hk, h⟩
    · have hsize : t.climb t.size (some id) ≠ none := by
        intro hnone
        rw [climb_eq_none_of_le hnone (by omega)] at h
        cases h
      -- leave out one round of the loop
      obtain ⟨i, j, hij, hj, heq⟩ := exists_repeat ht hid hsize
      obtain ⟨d, rfl⟩ := Nat.exists_eq_add_of_le (Nat.le_trans hj hk)
      refine ih (i + d) (by omega) ?_
      rw [Nat.add_assoc, climb_add, heq, ← climb_add, ← Nat.add_assoc]
      exact h

/-! ## §3 The ancestors of a class -/

theorem getElem?_chain (n : Nat) (s : Option ClassId) (k : Nat) :
    (t.chain n s)[k]? = if k < n then t.climb k s else none := by
  induction n generalizing s k with
  | zero => simp [chain]
  | succ n ih =>
    cases s with
    | none => simp [chain]
    | some id =>
      cases k with
      | zero => simp [chain]
      | succ k => simp [chain, ih, climb_succ]

/-- The ancestors are the classes on the way up, as many as there are classes in the table at
most. -/
theorem getElem?_ancestors (t : ClassTable) (id : ClassId) (k : Nat) :
    (t.ancestors id)[k]? = if k < t.size then t.climb (k + 1) (some id) else none :=
  getElem?_chain t.size (t.parentOf id) k

/-- Tables with the same parents have the same ancestors. -/
theorem ancestors_congr {u : ClassTable} (hsize : u.size = t.size)
    (hparent : ∀ id, u.parentOf id = t.parentOf id) (id : ClassId) :
    u.ancestors id = t.ancestors id := by
  have hchain : ∀ n s, u.chain n s = t.chain n s := by
    intro n
    induction n with
    | zero => exact fun _ => rfl
    | succ n ih =>
      rintro (_ | id)
      · rfl
      · rw [chain, chain, hparent, ih]
  rw [ancestors, ancestors, hchain, hsize, hparent]

/-- The ancestors are all that is met by following one or more parents. -/
theorem mem_ancestors_iff (ht : t.Closed) (hid : id < t.size) :
    a ∈ t.ancestors id ↔ ∃ k, t.climb (k + 1) (some id) = some a := by
  constructor
  · intro h
    obtain ⟨k, hk⟩ := List.mem_iff_getElem?.mp h
    rw [getElem?_ancestors] at hk
    split at hk
    · exact ⟨k, hk⟩
    · cases hk
  · rintro ⟨k, hk⟩
    obtain ⟨j, hj, hja⟩ := exists_climb_lt_size ht hid hk
    refine List.mem_iff_getElem?.mpr ⟨j, ?_⟩
    rw [getElem?_ancestors, if_pos hj, hja]

/-- There are fewer ancestors than classes exactly when the walk ends. -/
theorem length_ancestors_lt_iff (ht : t.Closed) (hid : id < t.size) :
    (t.ancestors id).length < t.size ↔ ∃ k, t.climb k (some id) = none := by
  constructor
  · intro h
    have hend := getElem?_ancestors t id (t.ancestors id).length
    rw [List.getElem?_eq_none (Nat.le_refl _), if_pos h] at hend
    exact ⟨_, hend.symm⟩
  · rintro ⟨k, hk⟩
    by_contra hlen
    -- the class itself and its ancestors are one class too many
    have hsize : t.climb t.size (some id) ≠ none := by
      obtain ⟨n, hn⟩ := Nat.exists_eq_add_one_of_ne_zero (Nat.ne_zero_of_lt hid)
      have hlast := getElem?_ancestors t id n
      rw [if_pos (by omega)] at hlast
      rw [hn, ← hlast]
      intro hnone
      rw [List.getElem?_eq_none_iff] at hnone
      omega
    obtain ⟨i, j, hij, hj, heq⟩ := exists_repeat ht hid hsize
    refine climb_ne_none_of_repeat hij heq ?_ k hk
    exact fun hnone => hsize (climb_eq_none_of_le hnone hj)

/-- An ended walk is read off the ancestors step by step. -/
theorem getElem?_ancestors_of_end (h : (t.ancestors id).length < t.size) (k : Nat) :
    (t.ancestors id)[k]? = t.climb (k + 1) (some id) := by
  rcases Nat.lt_or_ge k t.size with hk | hk
  · rw [getElem?_ancestors, if_pos hk]
  · have hend := getElem?_ancestors t id (t.ancestors id).length
    rw [List.getElem?_eq_none (Nat.le_refl _), if_pos h] at hend
    rw [List.getElem?_eq_none (by omega), climb_eq_none_of_le hend.symm (by omega)]

/-! ## §4 Standing -/

/-- The standing of a class. A chain with fewer ancestors than there are classes has ended at a
root, and one with as many has met some class twice. -/
def standing (t : ClassTable) (id : ClassId) : Standing :=
  let above := t.ancestors id
  if above.length < t.size then .rooted above.length
  else if above.contains id then .cyclic
  else .blocked

/-- If there are fewer ancestors than classes, the walk has ended, and their number is the depth. -/
theorem standing_of_end (h : (t.ancestors id).length < t.size) :
    t.standing id = .rooted (t.ancestors id).length := by
  simp [standing, h]

/-- A class has a depth exactly if its walk ends. -/
theorem standing_eq_rooted_iff :
    t.standing id = .rooted n ↔ (t.ancestors id).length < t.size ∧ (t.ancestors id).length = n := by
  unfold standing
  by_cases h : (t.ancestors id).length < t.size
  · simp [h]
  · simp only [h, if_false, false_and, iff_false]
    split <;> simp

/-- The depth of a class is the number of parents that can be followed from it. -/
theorem standing_eq_rooted_iff_climb (ht : t.Closed) (hid : id < t.size) :
    t.standing id = .rooted n ↔ t.climb n (some id) ≠ none ∧ t.climb (n + 1) (some id) = none := by
  rw [standing_eq_rooted_iff]
  constructor
  · rintro ⟨hend, rfl⟩
    -- the list of ancestors is the walk without its start, so its length is the step at which the
    -- walk ends
    have hclimb := getElem?_ancestors_of_end hend
    refine ⟨?_, by rw [← hclimb, List.getElem?_eq_none (Nat.le_refl _)]⟩
    cases hlen : (t.ancestors id).length with
    | zero => simp
    | succ k =>
      rw [← hclimb, Ne, List.getElem?_eq_none_iff]
      omega
  · rintro ⟨hsome, hnone⟩
    have hend := (length_ancestors_lt_iff ht hid).mpr ⟨n + 1, hnone⟩
    have hclimb := getElem?_ancestors_of_end hend
    refine ⟨hend, Nat.le_antisymm ?_ ?_⟩
    · rw [← List.getElem?_eq_none_iff, hclimb, hnone]
    · cases n with
      | zero => exact Nat.zero_le _
      | succ k =>
        rw [← hclimb, Ne, List.getElem?_eq_none_iff] at hsome
        omega

/-- A class is cyclic when following its parents leads back to it. -/
theorem standing_eq_cyclic_iff (ht : t.Closed) (hid : id < t.size) :
    t.standing id = .cyclic ↔ ∃ k, t.climb (k + 1) (some id) = some id := by
  unfold standing
  by_cases h : (t.ancestors id).length < t.size
  · simp only [h, if_true, reduceCtorEq, false_iff]
    rintro ⟨k, hk⟩
    obtain ⟨n, hn⟩ := (length_ancestors_lt_iff ht hid).mp h
    exact climb_ne_none_of_repeat (i := 0) (Nat.succ_pos k) hk.symm (by simp [hk]) n hn
  · by_cases hc : (t.ancestors id).contains id
    · simp only [h, if_false, hc, if_true, true_iff]
      exact (mem_ancestors_iff ht hid).mp (List.contains_iff_mem.mp hc)
    · simp only [h, if_false, hc, reduceCtorEq, false_iff]
      intro hk
      exact hc (List.contains_iff_mem.mpr ((mem_ancestors_iff ht hid).mpr hk))

/-- A class is blocked when its walk neither ends nor leads back to it. -/
theorem standing_eq_blocked_iff (ht : t.Closed) (hid : id < t.size) :
    t.standing id = .blocked ↔
      (∀ k, t.climb k (some id) ≠ none) ∧ ∀ k, t.climb (k + 1) (some id) ≠ some id := by
  have hroot := length_ancestors_lt_iff ht hid
  have hcyc := standing_eq_cyclic_iff ht hid
  -- with the walk going on for ever, what is left is whether it comes back to its start
  by_cases h : (t.ancestors id).length < t.size
  · obtain ⟨n, hn⟩ := hroot.mp h
    simp only [standing_of_end h, reduceCtorEq, false_iff]
    exact fun hb => hb.1 n hn
  · have hnone : ∀ k, t.climb k (some id) ≠ none := fun k hk => h (hroot.mpr ⟨k, hk⟩)
    cases hs : t.standing id with
    | rooted n => exact absurd (standing_eq_rooted_iff.mp hs).1 h
    | cyclic =>
      obtain ⟨k, hk⟩ := hcyc.mp hs
      simp only [reduceCtorEq, false_iff]
      exact fun hb => hb.2 k hk
    | blocked =>
      simp only [true_iff]
      refine ⟨hnone, fun k hk => ?_⟩
      rw [hcyc.mpr ⟨k, hk⟩] at hs
      cases hs

end ClassTable

end FieldPromotion
