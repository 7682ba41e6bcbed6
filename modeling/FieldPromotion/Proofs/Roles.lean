import FieldPromotion.Proofs.ClassPromotion
import Mathlib.Data.List.Pairwise

/-!
# Modifiers and roles

When the modifiers of a parameter fit together, and what the role of such a parameter says: a parameter
without `var` and `final` is plain, and any other one is an argument field whose storage and visibility
are those that are written. The slots hold at any time the first modifier of each group, so that the
role is found as well by searching all modifiers for one of a group.
-/

namespace FieldPromotion

/-! ## §1 Keywords -/

namespace Keyword

/-- Whether two keywords are of one group. -/
def sameGroup : Keyword → Keyword → Bool
  | .storage _, .storage _ => true
  | .visibility _, .visibility _ => true
  | .static, .static => true
  | _, _ => false

def storage? : Keyword → Option Storage
  | .storage s => some s
  | _ => none

def visibility? : Keyword → Option Visibility
  | .visibility v => some v
  | _ => none

end Keyword

theorem Keyword.storage?_eq_some_iff {k : Keyword} {s : Storage} :
    k.storage? = some s ↔ k = .storage s := by
  cases k <;> simp [Keyword.storage?]

theorem Keyword.visibility?_eq_some_iff {k : Keyword} {v : Visibility} :
    k.visibility? = some v ↔ k = .visibility v := by
  cases k <;> simp [Keyword.visibility?]

/-- Being of one group does not depend on the order. -/
theorem Keyword.sameGroup_comm (k l : Keyword) : k.sameGroup l = l.sameGroup k := by
  cases k <;> cases l <;> rfl

/-- The keywords in front of a parameter. -/
def Param.keywords (p : Param) : List Keyword :=
  p.modifiers.map Modifier.keyword

/-- Without `var` and `final` there is no storage to be found. -/
theorem Param.storage?_eq_none_iff {p : Param} :
    p.modifiers.findSome? (·.keyword.storage?) = none ↔ p.hasStorage = false := by
  have hkey : ∀ k : Keyword, k.storage? = none ↔ k.isStorage = false := by
    intro k
    cases k <;> simp [Keyword.storage?, Keyword.isStorage]
  simp [Param.hasStorage, hkey]

theorem Param.hasStorage_of_storage? {p : Param} {s : Storage}
    (h : p.modifiers.findSome? (·.keyword.storage?) = some s) : p.hasStorage = true := by
  rw [← Bool.not_eq_false, ← Param.storage?_eq_none_iff, h]
  simp

/-- The storage that is found is written on the parameter. -/
theorem Param.storage_mem_keywords {p : Param} {s : Storage}
    (h : p.modifiers.findSome? (·.keyword.storage?) = some s) : .storage s ∈ p.keywords := by
  obtain ⟨m, hm, hs⟩ := List.exists_of_findSome?_eq_some h
  exact List.mem_map.mpr ⟨m, hm, Keyword.storage?_eq_some_iff.mp hs⟩

/-- The visibility of a parameter is the one that is written, or else the given one. -/
theorem Param.visibility_mem_keywords (p : Param) (default : Visibility) {v : Visibility}
    (h : (p.modifiers.findSome? (·.keyword.visibility?)).getD default = v) :
    .visibility v ∈ p.keywords ∨ (∀ u, .visibility u ∉ p.keywords) ∧ v = default := by
  cases hv : p.modifiers.findSome? (·.keyword.visibility?) with
  | some u =>
    rw [hv, Option.getD_some] at h
    obtain ⟨m, hm, hu⟩ := List.exists_of_findSome?_eq_some hv
    rw [h] at hu
    exact Or.inl (List.mem_map.mpr ⟨m, hm, Keyword.visibility?_eq_some_iff.mp hu⟩)
  | none =>
    rw [hv, Option.getD_none] at h
    refine Or.inr ⟨?_, h.symm⟩
    intro u hu
    obtain ⟨m, hm, hkey⟩ := List.mem_map.mp hu
    -- a visibility on the parameter would have been found
    have hnone := List.findSome?_eq_none_iff.mp hv m hm
    rw [Keyword.visibility?_eq_some_iff.mpr hkey] at hnone
    cases hnone

/-! ## §2 Slots and searches -/

/-- The first modifier that is of one group with an earlier one, and the earlier one. -/
def Modifier.conflict? (before : List Modifier) : List Modifier → Option (Modifier × Modifier)
  | [] => none
  | m :: ms =>
    match before.find? (·.keyword.sameGroup m.keyword) with
    | some earlier => some (earlier, m)
    | none => conflict? (before ++ [m]) ms

namespace Slots

variable {s : Slots} {before ms : List Modifier}

/-- The slots hold the first modifier of each group. -/
structure Holds (s : Slots) (ms : List Modifier) : Prop where
  storage : s.storage = ms.findSome? fun m => m.keyword.storage?.map (·, m)
  visibility : s.visibility = ms.findSome? fun m => m.keyword.visibility?.map (·, m)
  static : s.static = ms.find? (·.keyword == .static)

/-- Looking for what a group says and keeping the modifier is looking for a modifier of the
group. -/
theorem map_snd_findSome? {α : Type} {f : Keyword → Option α} {k : Keyword}
    (h : ∀ l : Keyword, (f l).isSome = l.sameGroup k) (ms : List Modifier) :
    (ms.findSome? fun m => (f m.keyword).map (·, m)).map Prod.snd =
      ms.find? (·.keyword.sameGroup k) := by
  induction ms with
  | nil => rfl
  | cons m ms ih =>
    rw [List.findSome?_cons, List.find?_cons, ← h]
    cases f m.keyword with
    | none => exact ih
    | some x => rfl

/-- Looking for what a group says does not depend on the modifier being kept. -/
theorem map_fst_findSome? {α : Type} (f : Keyword → Option α) (ms : List Modifier) :
    (ms.findSome? fun m => (f m.keyword).map (·, m)).map Prod.fst =
      ms.findSome? (f ·.keyword) := by
  induction ms with
  | nil => rfl
  | cons m ms ih =>
    rw [List.findSome?_cons, List.findSome?_cons]
    cases f m.keyword with
    | none => exact ih
    | some x => rfl

/-- What comes out of a slot is the modifier of the same group that was met before. -/
theorem Holds.replace_fst (h : s.Holds before) (m : Modifier) :
    (s.replace m).1 = before.find? (·.keyword.sameGroup m.keyword) := by
  -- each slot is for the keywords of one group
  have hstorage (k : Storage) (l : Keyword) : l.storage?.isSome = l.sameGroup (.storage k) := by
    cases l <;> rfl
  have hvisibility (v : Visibility) (l : Keyword) :
      l.visibility?.isSome = l.sameGroup (.visibility v) := by
    cases l <;> rfl
  unfold replace
  cases hm : m.keyword with
  | storage k => rw [h.storage, map_snd_findSome? (hstorage k)]
  | visibility v => rw [h.visibility, map_snd_findSome? (hvisibility v)]
  | static =>
    show s.static = _
    rw [h.static]
    congr 1
    funext x
    cases x.keyword <;> rfl

/-- With one more modifier, the slot of its group gets it if it was empty. -/
theorem Holds.concat (h : s.Holds before) (m : Modifier) :
    Holds { storage := s.storage.or (m.keyword.storage?.map (·, m))
            visibility := s.visibility.or (m.keyword.visibility?.map (·, m))
            static := s.static.or ([m].find? (·.keyword == .static)) } (before ++ [m]) where
  storage := by rw [List.findSome?_append, ← h.storage, List.findSome?_singleton]
  visibility := by rw [List.findSome?_append, ← h.visibility, List.findSome?_singleton]
  static := by rw [List.find?_append, ← h.static]

/-- As long as nothing comes out of the slots, they hold the modifiers met so far. -/
theorem Holds.replace_snd (h : s.Holds before) {m : Modifier} (hnone : (s.replace m).1 = none) :
    (s.replace m).2.Holds (before ++ [m]) := by
  suffices hslots : (s.replace m).2 =
      { storage := s.storage.or (m.keyword.storage?.map (·, m))
        visibility := s.visibility.or (m.keyword.visibility?.map (·, m))
        static := s.static.or ([m].find? (·.keyword == .static)) } by
    rw [hslots]
    exact h.concat m
  unfold replace at *
  -- the slot of the group was empty, and the other two stay
  cases hm : m.keyword <;> simp_all [Keyword.storage?, Keyword.visibility?]

/-- Filling the slots is looking for the first conflict. -/
theorem Holds.fill (h : s.Holds before) (ms : List Modifier) :
    (∃ pair, Modifier.conflict? before ms = some pair ∧ s.fill ms = .error pair) ∨
      (Modifier.conflict? before ms = none ∧
        ∃ filled, s.fill ms = .ok filled ∧ filled.Holds (before ++ ms)) := by
  induction ms generalizing s before with
  | nil => exact .inr ⟨rfl, s, rfl, by rwa [List.append_nil]⟩
  | cons m ms ih =>
    rw [Slots.fill, Modifier.conflict?, ← h.replace_fst]
    -- the search finds an earlier modifier of the group exactly if one comes out of the slot
    rcases hout : s.replace m with ⟨out, s'⟩
    cases out with
    | some first => exact .inl ⟨(first, m), rfl, rfl⟩
    | none =>
      have hs' : s'.Holds (before ++ [m]) := by
        have := h.replace_snd (m := m) (by rw [hout])
        rwa [hout] at this
      have := ih hs'
      rwa [List.append_assoc] at this

end Slots

/-- The role of a parameter as a search among its modifiers says it. -/
def Param.searchedRole (p : Param) : Except Error Role :=
  match Modifier.conflict? [] p.modifiers with
  | some (first, second) =>
    .error (.conflictingModifiers p.name.name first.keyword second.keyword second.span)
  | none =>
    match p.modifiers.findSome? (·.keyword.storage?) with
    | none =>
      match p.modifiers with
      | [] => .ok .plain
      | stray :: _ => .error (.modifierWithoutStorage p.name.name stray.keyword stray.span)
    | some storage =>
      match p.modifiers.find? (·.keyword == .static) with
      | some m => .error (.staticField p.name.name m.span)
      | none =>
        .ok (.field { storage, visibility := p.modifiers.findSome? (·.keyword.visibility?) })

/-- The slots give the role that a search gives. -/
theorem Param.role_eq_searchedRole (p : Param) : p.role = p.searchedRole := by
  unfold Param.role Param.searchedRole
  -- before the first modifier the slots are empty
  have hempty : Slots.Holds {} [] := ⟨rfl, rfl, rfl⟩
  rcases hempty.fill p.modifiers with ⟨pair, hconflict, hfill⟩ | ⟨hconflict, slots, hfill, hslots⟩
  · rw [hconflict, hfill]
  · rw [List.nil_append] at hslots
    rw [hconflict, hfill, ← Slots.map_fst_findSome?, ← Slots.map_fst_findSome?, ← hslots.storage,
      ← hslots.visibility, ← hslots.static]
    obtain ⟨storage, visibility, static⟩ := slots
    cases storage with
    | none => cases p.modifiers <;> rfl
    | some storage => cases static <;> rfl

/-! ## §3 Modifiers that fit together -/

/-- There is no conflict when no two modifiers are of one group, neither among the given ones nor with
those that were looked at before. -/
theorem Modifier.conflict?_eq_none_iff {before ms : List Modifier} :
    Modifier.conflict? before ms = none ↔
      (∀ m ∈ ms, ∀ b ∈ before, b.keyword.sameGroup m.keyword = false) ∧
      ms.Pairwise fun a b => a.keyword.sameGroup b.keyword = false := by
  induction ms generalizing before with
  | nil => simp [Modifier.conflict?]
  | cons m ms ih =>
    rw [Modifier.conflict?]
    cases hfind : before.find? (·.keyword.sameGroup m.keyword) with
    | some b =>
      -- an earlier modifier of the same group
      have hb := List.mem_of_find?_eq_some hfind
      have hgroup : b.keyword.sameGroup m.keyword = true := by
        simpa using List.find?_some hfind
      simp only [reduceCtorEq, false_iff]
      intro h
      rw [h.1 m List.mem_cons_self b hb] at hgroup
      cases hgroup
    | none =>
      have hm : ∀ b ∈ before, b.keyword.sameGroup m.keyword = false := by
        simpa using hfind
      simp only [ih, List.mem_append, List.mem_singleton, List.forall_mem_cons, List.pairwise_cons]
      constructor
      · intro h
        obtain ⟨hms, hpair⟩ := h
        exact ⟨⟨hm, fun x hx b hb => hms x hx b (Or.inl hb)⟩,
          fun x hx => hms x hx m (Or.inr rfl), hpair⟩
      · intro h
        obtain ⟨⟨-, hms⟩, hmx, hpair⟩ := h
        refine ⟨?_, hpair⟩
        intro x hx b hb
        rcases hb with hb | rfl
        · exact hms x hx b hb
        · exact hmx x hx

/-- No two modifiers are of one group. -/
def Modifier.Apart (ms : List Modifier) : Prop :=
  ms.Pairwise fun a b => a.keyword.sameGroup b.keyword = false

/-- Two modifiers of one group are the same when no two are of one group. -/
theorem Modifier.Apart.eq_of_sameGroup {ms : List Modifier} {a b : Modifier} (h : Modifier.Apart ms)
    (ha : a ∈ ms) (hb : b ∈ ms) (hab : a.keyword.sameGroup b.keyword = true) : a = b := by
  have hsymm : Std.Symm fun x y : Modifier => x.keyword.sameGroup y.keyword = false := by
    refine ⟨fun x y hxy => ?_⟩
    rw [Keyword.sameGroup_comm]
    exact hxy
  by_contra hne
  have hfalse := List.Pairwise.forall h ha hb hne
  rw [hab] at hfalse
  cases hfalse

/-- The modifiers of a parameter fit together: no two of them are of one group, there is `var` or
`final` if there are any, and there is no `static`. -/
structure Param.Proper (p : Param) : Prop where
  distinct : p.modifiers.Pairwise fun a b => a.keyword.sameGroup b.keyword = false
  stored : p.modifiers ≠ [] → p.hasStorage = true
  notStatic : p.hasModifier .static = false

theorem Param.find?_static_eq_none_iff {p : Param} :
    p.modifiers.find? (·.keyword == .static) = none ↔ p.hasModifier .static = false := by
  simp [Param.hasModifier]

/-- A parameter has a role when its modifiers fit together. It is plain when nothing is to be stored,
and else an argument field with the storage and the visibility that are written. -/
theorem Param.role_eq_ok_iff {p : Param} {r : Role} : p.role = .ok r ↔ p.Proper ∧
    ((p.hasStorage = false ∧ r = .plain) ∨
      ∃ storage, p.modifiers.findSome? (·.keyword.storage?) = some storage ∧
        r = .field { storage, visibility := p.modifiers.findSome? (·.keyword.visibility?) }) := by
  rw [Param.role_eq_searchedRole]
  unfold Param.searchedRole
  cases hconf : Modifier.conflict? [] p.modifiers with
  | some pair =>
    simp only [reduceCtorEq, false_iff]
    intro h
    rw [Modifier.conflict?_eq_none_iff.mpr ⟨by simp, h.1.distinct⟩] at hconf
    cases hconf
  | none =>
    have hdistinct := (Modifier.conflict?_eq_none_iff.mp hconf).2
    cases hstorage : p.modifiers.findSome? (·.keyword.storage?) with
    | none =>
      have hno := Param.storage?_eq_none_iff.mp hstorage
      cases hmods : p.modifiers with
      | nil =>
        have hproper : p.Proper := ⟨hdistinct, by simp [hmods], by simp [Param.hasModifier, hmods]⟩
        simp [hproper, hno, eq_comm]
      | cons first rest =>
        -- a modifier, but nothing to store
        simp only [reduceCtorEq, false_iff]
        intro h
        rw [h.1.stored (by simp [hmods])] at hno
        cases hno
    | some storage =>
      have hyes := Param.hasStorage_of_storage? hstorage
      cases hstatic : p.modifiers.find? (·.keyword == .static) with
      | some m =>
        simp only [reduceCtorEq, false_iff]
        intro h
        rw [Param.find?_static_eq_none_iff.mpr h.1.notStatic] at hstatic
        cases hstatic
      | none =>
        have hproper : p.Proper :=
          ⟨hdistinct, fun _ => hyes, Param.find?_static_eq_none_iff.mp hstatic⟩
        simp [hproper, hyes, eq_comm]

/-- The parameters with a role are those whose modifiers fit together. -/
theorem Param.exists_role_iff {p : Param} : (∃ r, p.role = .ok r) ↔ p.Proper := by
  constructor
  · intro h
    obtain ⟨r, hr⟩ := h
    exact (Param.role_eq_ok_iff.mp hr).1
  · intro h
    cases hs : p.modifiers.findSome? (·.keyword.storage?) with
    | none => exact ⟨_, Param.role_eq_ok_iff.mpr ⟨h, Or.inl ⟨Param.storage?_eq_none_iff.mp hs, rfl⟩⟩⟩
    | some storage => exact ⟨_, Param.role_eq_ok_iff.mpr ⟨h, Or.inr ⟨storage, hs, rfl⟩⟩⟩

/-- The argument fields are the parameters with `var` or `final`. -/
theorem Param.hasStorage_of_role {p : Param} {r : Role} (h : p.role = .ok r) :
    p.hasStorage = r.candidate?.isSome := by
  obtain ⟨-, ⟨hno, rfl⟩ | ⟨storage, hs, rfl⟩⟩ := Param.role_eq_ok_iff.mp h
  · exact hno
  · exact Param.hasStorage_of_storage? hs

/-- All parameters of a list have roles when the modifiers of each fit together. -/
theorem Param.exists_roles_iff {ps : List Param} :
    (∃ rs, Param.roles ps = .ok rs) ↔ ∀ p ∈ ps, p.Proper := by
  simp only [Param.roles_eq_ok_iff, ← Param.exists_role_iff]
  induction ps with
  | nil => simp
  | cons p ps ih =>
    rw [List.forall_mem_cons, ← ih]
    constructor
    · intro h
      obtain ⟨rs, hrs⟩ := h
      obtain ⟨r, rest, hr, hrest, -⟩ := List.forall₂_cons_left_iff.mp hrs
      exact ⟨⟨r, hr⟩, rest, hrest⟩
    · intro h
      obtain ⟨⟨r, hr⟩, rest, hrest⟩ := h
      exact ⟨r :: rest, List.Forall₂.cons hr hrest⟩

end FieldPromotion
