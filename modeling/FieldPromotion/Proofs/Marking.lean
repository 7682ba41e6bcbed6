import FieldPromotion.Proofs.Ancestry

/-!
# Marks

Every mark that a walk leaves is the standing of the class, as it follows from all the parents above.
The marks of earlier walks are what a walk relies on: a class has a mark only if its parent has one, so
from a class with a mark no walk leads back to a class without.
-/

namespace FieldPromotion

namespace ClassTable

variable {t : ClassTable} {marks : Marks} {w : Walk} {start a b : ClassId}
  {current : Option ClassId} {ending : WalkEnd} {i j k n : Nat}

/-! ## §1 Climbing from the classes of a path -/

/-- From a class on a loop, every walk leads back to it. -/
theorem exists_climb_back (h : t.climb (j + 1) (some a) = some a) (n : Nat) :
    ∃ m, t.climb m (t.climb n (some a)) = some a := by
  have hround : ∀ r, t.climb (r * (j + 1)) (some a) = some a := by
    intro r
    induction r with
    | zero => simp
    | succ r ih => rw [Nat.succ_mul, climb_add, ih, h]
  -- as many rounds as the walk has steps are at least as long as the walk
  refine ⟨n * j, ?_⟩
  rw [← climb_add, Nat.add_comm, ← Nat.mul_succ, hround n]

/-- The walk from `start` has met the classes on its path, none of which had a mark, and is now at
`current`. -/
structure Climbed (t : ClassTable) (marks : Marks) (start : ClassId) (w : Walk)
    (current : Option ClassId) : Prop where
  path : ∀ k < w.path.length, w.path[k]? = t.climb k (some start)
  current : current = t.climb w.path.length (some start)
  unmarked : ∀ a ∈ w.path, marks[a]? = some none
  positions : ∀ a i, w.positions.lookup a = some i ↔ w.path[i]? = some a

namespace Climbed

/-- A walk starts with an empty path. -/
theorem init (start : ClassId) : t.Climbed marks start {} (some start) :=
  ⟨by simp, rfl, by simp, by simp⟩

/-- What is true of a walk stays true when it goes on to the parent. -/
theorem push (h : t.Climbed marks start w (some a)) (hmark : marks[a]? = some none)
    (hnew : w.positions.lookup a = none) :
    t.Climbed marks start (w.push a) (t.parentOf a) where
  path := by
    intro k hk
    -- the class at the end of the path is the one that the walk is at
    rcases Nat.lt_or_ge k w.path.length with hlt | hge
    · rw [Walk.push, List.getElem?_append_left hlt, h.path k hlt]
    · obtain rfl : k = w.path.length := by
        simp [Walk.push] at hk
        omega
      rw [Walk.push, List.getElem?_concat_length, h.current]
  current := by
    rw [Walk.push, List.length_append, List.length_singleton, climb_succ_bind, ← h.current]
    rfl
  unmarked := by
    intro b hb
    rcases List.mem_append.mp hb with hb | hb
    · exact h.unmarked b hb
    · rw [List.mem_singleton.mp hb, hmark]
  positions := by
    have hnot : ∀ i : Nat, w.path[i]? ≠ some a := by
      intro i hi
      rw [(h.positions a i).mpr hi] at hnew
      cases hnew
    intro b i
    rw [Walk.push, List.lookup_cons]
    cases hb : b == a with
    | true =>
      obtain rfl := beq_iff_eq.mp hb
      rw [List.getElem?_append]
      grind
    | false =>
      have hne : a ≠ b := fun hab => by simp [hab] at hb
      show w.positions.lookup b = some i ↔ _
      rw [h.positions, List.getElem?_append]
      grind

end Climbed

/-- What a walk ends at. -/
inductive EndsAt (marks : Marks) (w : Walk) : Option ClassId → WalkEnd → Prop
  | root : EndsAt marks w none .root
  | outside {id : ClassId} : marks[id]? = none → EndsAt marks w (some id) .root
  | marked {id : ClassId} {s : Standing} : marks[id]? = some (some s) →
      EndsAt marks w (some id) (.marked s)
  | onPath {id : ClassId} {position : Nat} : w.path[position]? = some id →
      EndsAt marks w (some id) (.onPath position)

/-- A walk goes up from the class where it started until there is a reason to end. -/
theorem exists_climbed_walkUp (h : t.Climbed marks start w current) :
    ∃ last, t.Climbed marks start (t.walkUp marks w current).1 last ∧
      EndsAt marks (t.walkUp marks w current).1 last (t.walkUp marks w current).2 := by
  fun_induction walkUp t marks w current with
  | case1 w => exact ⟨none, h, .root⟩
  | case2 w a hmark => exact ⟨some a, h, .outside hmark⟩
  | case3 w a s hmark => exact ⟨some a, h, .marked hmark⟩
  | case4 w a hmark i hmet => exact ⟨some a, h, .onPath ((h.positions a i).mp hmet)⟩
  | case5 w a hmark hnew ih => exact ih (h.push hmark hnew)

/-! ## §2 The standing of the classes of a path -/

/-- Some walk has come to the class. -/
def IsMarked (marks : Marks) (id : ClassId) : Prop :=
  ∃ s, marks[id]? = some (some s)

/-- Every mark is the standing of its class, and the parent of a class with a mark has one too. -/
structure Sound (t : ClassTable) (marks : Marks) : Prop where
  length : marks.length = t.size
  standing : ∀ id s, marks[id]? = some (some s) → t.standing id = s
  parent : ∀ id p, IsMarked marks id → t.parentOf id = some p → IsMarked marks p

/-- Whatever is above a class with a mark has one. -/
theorem Sound.climb (hs : t.Sound marks) (ha : IsMarked marks a)
    (h : t.climb n (some a) = some b) : IsMarked marks b := by
  induction n generalizing b with
  | zero =>
    obtain rfl := Option.some.inj h
    exact ha
  | succ n ih =>
    rw [climb_succ_bind] at h
    obtain ⟨c, hc, hcb⟩ := Option.bind_eq_some_iff.mp h
    exact hs.parent c b (ih hc) hcb

/-- The chain of a class without depth never ends. -/
theorem climb_ne_none_of_standing (ht : t.Closed) (ha : a < t.size)
    (h : ∀ d, t.standing a ≠ .rooted d) (k : Nat) : t.climb k (some a) ≠ none := by
  intro hk
  have hend := (length_ancestors_lt_iff ht ha).mpr ⟨k, hk⟩
  exact h _ (standing_of_end hend)

/-- A position with a class is a position of the path. -/
theorem lt_length_path {w : Walk} {k : Nat} {a : ClassId} (hk : w.path[k]? = some a) :
    k < w.path.length :=
  (List.getElem?_eq_some_iff.mp hk).1

namespace Climbed

section Path

variable (hc : t.Climbed marks start w current)
include hc

/-- Going on from a class of the path is going on from where the walk started. -/
theorem climb_eq (hk : w.path[k]? = some a) (m : Nat) :
    t.climb m (some a) = t.climb (k + m) (some start) := by
  rw [climb_add, ← hc.path k (lt_length_path hk), hk]

/-- From a class of the path, the rest of the path leads to where the walk is. -/
theorem climb_length_sub (hk : w.path[k]? = some a) (m : Nat) :
    t.climb (w.path.length - k + m) (some a) = t.climb m current := by
  have hlt := lt_length_path hk
  rw [hc.climb_eq hk, hc.current, ← climb_add]
  congr 1
  omega

/-- All classes of a path are classes of the table. -/
theorem lt_size (hlength : marks.length = t.size) (hk : w.path[k]? = some a) : a < t.size := by
  have hmark := hc.unmarked a (List.mem_of_getElem? hk)
  rw [← hlength]
  exact (List.getElem?_eq_some_iff.mp hmark).1

/-- No class is on the path twice. -/
theorem position_unique (hi : w.path[i]? = some a) (hj : w.path[j]? = some a) : i = j := by
  have hlookup := (hc.positions a i).mpr hi
  rw [(hc.positions a j).mpr hj] at hlookup
  exact (Option.some.inj hlookup).symm

end Path

/-- Below a class without parent, depths count from the end of the path. -/
theorem standing_of_root (hc : t.Climbed marks start w none) (ht : t.Closed)
    (hlength : marks.length = t.size) (hk : w.path[k]? = some a) :
    t.standing a = .rooted (w.path.length - 1 - k) := by
  have hlt := lt_length_path hk
  rw [standing_eq_rooted_iff_climb ht (hc.lt_size hlength hk)]
  constructor
  · rw [hc.climb_eq hk, ← hc.path _ (by omega), Ne, List.getElem?_eq_none_iff]
    omega
  · have hend := hc.climb_length_sub hk 0
    rw [climb_zero] at hend
    rw [← hend]
    congr 1
    omega

/-- Below a class with a depth, depths count on from there. -/
theorem standing_of_rooted {d : Nat} (hc : t.Climbed marks start w (some b)) (ht : t.Closed)
    (hlength : marks.length = t.size) (hb : b < t.size) (hd : t.standing b = .rooted d)
    (hk : w.path[k]? = some a) :
    t.standing a = .rooted (d + 1 + (w.path.length - 1 - k)) := by
  have hlt := lt_length_path hk
  obtain ⟨hsome, hnone⟩ := (standing_eq_rooted_iff_climb ht hb).mp hd
  have hsteps : d + 1 + (w.path.length - 1 - k) = w.path.length - k + d := by omega
  rw [standing_eq_rooted_iff_climb ht (hc.lt_size hlength hk), hsteps, Nat.add_assoc,
    hc.climb_length_sub hk, hc.climb_length_sub hk]
  exact ⟨hsome, hnone⟩

/-- Below a class whose chain loops, all classes of the path are blocked. If one of them were on the
loop, the loop would lead from a class with a mark to one without. -/
theorem standing_of_looping (hc : t.Climbed marks start w (some b)) (ht : t.Closed)
    (hs : t.Sound marks) (hmark : IsMarked marks b) (hb : b < t.size)
    (hloop : ∀ d, t.standing b ≠ .rooted d) (hk : w.path[k]? = some a) :
    t.standing a = .blocked := by
  rw [standing_eq_blocked_iff ht (hc.lt_size hs.length hk)]
  constructor
  · intro m hm
    apply climb_ne_none_of_standing ht hb hloop m
    rw [← hc.climb_length_sub hk]
    exact climb_eq_none_of_le hm (Nat.le_add_left _ _)
  · intro j hj
    -- from the class with the mark, the loop would lead back to a class of the path
    obtain ⟨m, hm⟩ := exists_climb_back hj (w.path.length - k)
    have hlast := hc.climb_length_sub hk 0
    rw [Nat.add_zero, climb_zero] at hlast
    rw [hlast] at hm
    obtain ⟨s, hmarked⟩ := hs.climb hmark hm
    rw [hc.unmarked a (List.mem_of_getElem? hk)] at hmarked
    cases hmarked

/-- From a class of the path that the walk came back to, it goes round the rest of the path. -/
theorem exists_climb_loop (hc : t.Climbed marks start w (some b)) (hi : w.path[i]? = some b)
    (m : Nat) : ∃ l, i ≤ l ∧ l < w.path.length ∧ t.climb m (some b) = w.path[l]? := by
  induction m with
  | zero => exact ⟨i, Nat.le_refl i, lt_length_path hi, by rw [climb_zero, hi]⟩
  | succ m ih =>
    obtain ⟨l, hil, hl, hm⟩ := ih
    have hnext : t.climb (m + 1) (some b) = t.climb (l + 1) (some start) := by
      rw [climb_succ_bind, hm, hc.path l hl, climb_succ_bind]
    rcases Nat.lt_or_ge (l + 1) w.path.length with hlt | hge
    · exact ⟨l + 1, by omega, hlt, by rw [hnext, hc.path _ hlt]⟩
    · -- the last class of the path leads back
      obtain hlast : l + 1 = w.path.length := by omega
      exact ⟨i, Nat.le_refl i, lt_length_path hi, by rw [hnext, hlast, ← hc.current, hi]⟩

/-- A walk that comes back to its own path has found a loop, and everything before it is blocked. -/
theorem standing_of_onPath (hc : t.Climbed marks start w (some b)) (ht : t.Closed)
    (hlength : marks.length = t.size) (hi : w.path[i]? = some b) (hk : w.path[k]? = some a) :
    t.standing a = if i ≤ k then .cyclic else .blocked := by
  have hlt := lt_length_path hk
  have ha := hc.lt_size hlength hk
  split
  · rename_i hik
    rw [standing_eq_cyclic_iff ht ha]
    refine ⟨w.path.length - k + (k - i) - 1, ?_⟩
    have hsteps : w.path.length - k + (k - i) - 1 + 1 = w.path.length - k + (k - i) := by omega
    have hback : i + (k - i) = k := by omega
    rw [hsteps, hc.climb_length_sub hk, hc.climb_eq hi, hback, ← hc.path k hlt, hk]
  · rename_i hik
    rw [standing_eq_blocked_iff ht ha]
    constructor
    · intro m
      have hrepeat : t.climb i (some start) = t.climb w.path.length (some start) := by
        rw [← hc.path i (lt_length_path hi), hi, hc.current]
      have hsome : t.climb w.path.length (some start) ≠ none := by
        rw [← hc.current]
        exact Option.some_ne_none b
      rw [hc.climb_eq hk]
      exact climb_ne_none_of_repeat (lt_length_path hi) hrepeat hsome _
    · intro j hj
      -- the loop does not contain what comes before it on the path
      obtain ⟨m, hm⟩ := exists_climb_back hj (i - k)
      have hforth : t.climb (i - k) (some a) = some b := by
        have hsum : k + (i - k) = i := by omega
        rw [hc.climb_eq hk, hsum, ← hc.path i (lt_length_path hi), hi]
      obtain ⟨l, hil, -, hl⟩ := hc.exists_climb_loop hi m
      rw [hforth, hl] at hm
      have := hc.position_unique hk hm
      omega

end Climbed

end ClassTable

/-- The mark that a class gets at some position of a path of `n` classes. -/
def WalkEnd.standingAt (ending : WalkEnd) (n k : Nat) : Standing :=
  match ending with
  | .root => .rooted (n - 1 - k)
  | .marked (.rooted depth) => .rooted (depth + 1 + (n - 1 - k))
  | .marked .cyclic | .marked .blocked => .blocked
  | .onPath position => if position ≤ k then .cyclic else .blocked

namespace ClassTable

variable {t : ClassTable} {marks : Marks} {w : Walk} {start a : ClassId}
  {last : Option ClassId} {ending : WalkEnd} {k : Nat}

/-- Wherever a walk ends, every class of its path gets its standing as a mark. -/
theorem Climbed.standing_eq (hc : t.Climbed marks start w last) (he : EndsAt marks w last ending)
    (ht : t.Closed) (hs : t.Sound marks) (hstart : start < t.size) (hk : w.path[k]? = some a) :
    t.standing a = ending.standingAt w.path.length k := by
  cases he with
  | root => exact hc.standing_of_root ht hs.length hk
  | @outside b hb =>
    -- all parents are classes of the table
    have hlt : b < t.size := climb_lt_size ht hstart hc.current.symm
    rw [List.getElem?_eq_none_iff, hs.length] at hb
    exact absurd hlt (Nat.not_lt.mpr hb)
  | @marked b s hb =>
    have hlt : b < t.size := climb_lt_size ht hstart hc.current.symm
    have hstanding := hs.standing b s hb
    cases s with
    | rooted d => exact hc.standing_of_rooted ht hs.length hlt hstanding hk
    | cyclic => exact hc.standing_of_looping ht hs ⟨_, hb⟩ hlt (by simp [hstanding]) hk
    | blocked => exact hc.standing_of_looping ht hs ⟨_, hb⟩ hlt (by simp [hstanding]) hk
  | onPath hi => exact hc.standing_of_onPath ht hs.length hi hk

end ClassTable

/-! ## §3 Setting marks -/

namespace Marks

variable {marks : Marks} {new : List (ClassId × Standing)} {a : ClassId}

@[simp] theorem length_setAll : (marks.setAll new).length = marks.length := by
  unfold setAll
  induction new generalizing marks with
  | nil => rfl
  | cons p new ih => rw [List.foldl_cons, ih, List.length_set]

/-- After some marks are set, a class has one of those for it, or there was none. -/
theorem getElem?_setAll (new : List (ClassId × Standing)) (ha : a < marks.length) :
    (∃ s, (a, s) ∈ new ∧ (marks.setAll new)[a]? = some (some s)) ∨
      ((∀ s, (a, s) ∉ new) ∧ (marks.setAll new)[a]? = marks[a]?) := by
  induction new generalizing marks with
  | nil => exact .inr ⟨by simp, rfl⟩
  | cons p new ih =>
    have hset : setAll marks (p :: new) = setAll (marks.set p.1 (some p.2)) new := rfl
    have hlength : a < (marks.set p.1 (some p.2)).length := by rwa [List.length_set]
    rw [hset]
    rcases ih hlength with ⟨s, hs, hmark⟩ | ⟨hnot, hmark⟩
    · exact .inl ⟨s, List.mem_cons_of_mem p hs, hmark⟩
    · by_cases hp : p.1 = a
      · subst hp
        exact .inl ⟨p.2, List.mem_cons_self, by rw [hmark, List.getElem?_set_self ha]⟩
      · refine .inr ⟨fun s hs => ?_, by rw [hmark, List.getElem?_set_ne hp]⟩
        rcases List.mem_cons.mp hs with rfl | hs
        · exact hp rfl
        · exact hnot s hs

/-- The depths of a path grow from its last class to its first one. -/
theorem mem_depths {path : List ClassId} {base : Nat} {s : Standing} :
    (a, s) ∈ (path.reverse.zipIdx.map fun p => (p.1, Standing.rooted (base + p.2))) ↔
      ∃ k, path[k]? = some a ∧ .rooted (base + (path.length - 1 - k)) = s := by
  simp only [List.mem_map, Prod.exists, List.mem_zipIdx_iff_getElem?, Prod.mk.injEq]
  constructor
  · rintro ⟨b, j, hj, rfl, rfl⟩
    have hlt : j < path.length := by simpa using (List.getElem?_eq_some_iff.mp hj).1
    rw [List.getElem?_reverse hlt] at hj
    exact ⟨_, hj, by congr 2; omega⟩
  · rintro ⟨k, hk, rfl⟩
    have hlt := (List.getElem?_eq_some_iff.mp hk).1
    refine ⟨a, path.length - 1 - k, ?_, rfl, rfl⟩
    rw [List.getElem?_reverse (by omega), ← hk]
    congr 1
    omega

/-- The marks that a path gets are those of its positions. -/
theorem exists_settle_eq (marks : Marks) (path : List ClassId) (ending : WalkEnd) :
    ∃ new, marks.settle path ending = marks.setAll new ∧
      ∀ a s, (a, s) ∈ new ↔ ∃ k, path[k]? = some a ∧ ending.standingAt path.length k = s := by
  -- a path that comes to a loop from outside is blocked as a whole
  have hblocked : ∀ (a : ClassId) (s : Standing),
      (a, s) ∈ path.map (fun id => (id, Standing.blocked)) ↔
        ∃ k : Nat, path[k]? = some a ∧ .blocked = s := by
    simp [List.mem_iff_getElem?]
  cases ending with
  | root =>
    refine ⟨_, rfl, fun a s => ?_⟩
    rw [mem_depths]
    simp only [WalkEnd.standingAt, Nat.zero_add]
  | marked standing =>
    cases standing with
    | rooted depth => exact ⟨_, rfl, fun a s => mem_depths⟩
    | cyclic => exact ⟨_, rfl, hblocked⟩
    | blocked => exact ⟨_, rfl, hblocked⟩
  | onPath position =>
    refine ⟨_, rfl, fun a s => ?_⟩
    simp only [List.mem_map, Prod.exists, List.mem_zipIdx_iff_getElem?, Prod.mk.injEq,
      WalkEnd.standingAt]
    constructor
    · rintro ⟨b, k, hk, rfl, rfl⟩
      exact ⟨k, hk, rfl⟩
    · rintro ⟨k, hk, rfl⟩
      exact ⟨a, k, hk, rfl, rfl⟩

end Marks

/-! ## §4 All walks -/

namespace ClassTable

variable {t : ClassTable} {marks : Marks} {w : Walk} {start a b : ClassId}
  {last : Option ClassId} {ending : WalkEnd} {id : ClassId}

/-- A class has a mark afterwards if it had one before or gets one. -/
theorem isMarked_setAll (new : List (ClassId × Standing)) (ha : a < marks.length) :
    IsMarked (marks.setAll new) a ↔ (∃ s, (a, s) ∈ new) ∨ IsMarked marks a := by
  rcases Marks.getElem?_setAll new ha with ⟨s, hs, hmark⟩ | ⟨hnot, hmark⟩
  · exact iff_of_true ⟨s, hmark⟩ (.inl ⟨s, hs⟩)
  · rw [IsMarked, hmark]
    exact ⟨.inr, fun h => h.resolve_left fun ⟨s, hs⟩ => hnot s hs⟩

/-- A walk meets the class that it starts from, unless that has a mark. -/
theorem Climbed.getElem?_zero (hc : t.Climbed marks start w last) (he : EndsAt marks w last ending)
    (hstart : marks[start]? = some none) : w.path[0]? = some start := by
  -- a walk that has not gone on is still at its start, and none of the endings is possible there
  rcases Nat.eq_zero_or_pos w.path.length with hzero | hpos
  · have hlast : last = some start := by rw [hc.current, hzero, climb_zero]
    have hpath : w.path = [] := List.length_eq_zero_iff.mp hzero
    cases he <;> simp_all
  · rw [hc.path 0 hpos, climb_zero]

/-- The parent of a class on the path is on the path or had a mark. -/
theorem Climbed.parent (hc : t.Climbed marks start w last) (he : EndsAt marks w last ending)
    (ht : t.Closed) (hlength : marks.length = t.size) (hstart : start < t.size) {k : Nat}
    (hk : w.path[k]? = some a) (hb : t.parentOf a = some b) :
    (∃ j : Nat, w.path[j]? = some b) ∨ IsMarked marks b := by
  have hlt := lt_length_path hk
  have hnext : t.climb (k + 1) (some start) = some b := by
    rw [climb_succ_bind, ← hc.path k hlt, hk]
    exact hb
  -- the parent is the next class of the path, or the one that the walk has stopped at
  rcases Nat.lt_or_ge (k + 1) w.path.length with hlt' | hge
  · exact .inl ⟨k + 1, by rw [hc.path _ hlt', hnext]⟩
  · obtain hlast : w.path.length = k + 1 := by omega
    obtain rfl : last = some b := by rw [hc.current, hlast, hnext]
    cases he with
    | outside hnone =>
      have hsize : b < t.size := climb_lt_size ht hstart hnext
      rw [List.getElem?_eq_none_iff, hlength] at hnone
      exact absurd hsize (Nat.not_lt.mpr hnone)
    | marked hmark => exact .inr ⟨_, hmark⟩
    | onPath hi => exact .inl ⟨_, hi⟩

/-- A walk keeps the marks right, takes none away and leaves one at the class it started from. -/
theorem Sound.markFrom (hs : t.Sound marks) (ht : t.Closed) (hstart : start < t.size) :
    t.Sound (t.markFrom marks start) ∧
      (∀ a, a = start ∨ IsMarked marks a → IsMarked (t.markFrom marks start) a) := by
  unfold ClassTable.markFrom
  have hbound : start < marks.length := by rwa [hs.length]
  split
  · rename_i hmark
    have hinit : t.Climbed marks start {} (some start) := Climbed.init start
    obtain ⟨last, hc, he⟩ := exists_climbed_walkUp hinit
    generalize t.walkUp marks {} (some start) = found at hc he
    obtain ⟨w, ending⟩ := found
    obtain ⟨new, hsettle, hnew⟩ := Marks.exists_settle_eq marks w.path ending
    simp only [hsettle]
    -- what the walk marks is its path
    have hmem : ∀ a, (∃ s, (a, s) ∈ new) ↔ ∃ k : Nat, w.path[k]? = some a := by
      intro a
      simp only [hnew]
      exact ⟨fun ⟨_, k, hk, _⟩ => ⟨k, hk⟩, fun ⟨k, hk⟩ => ⟨_, k, hk, rfl⟩⟩
    have hiff : ∀ a < t.size,
        (IsMarked (marks.setAll new) a ↔
          (∃ k : Nat, w.path[k]? = some a) ∨ IsMarked marks a) := by
      intro a ha
      rw [isMarked_setAll new (by rwa [hs.length]), hmem]
    have hlt : ∀ a, IsMarked (marks.setAll new) a → a < t.size := by
      rintro a ⟨s, ha⟩
      have := (List.getElem?_eq_some_iff.mp ha).1
      rwa [Marks.length_setAll, hs.length] at this
    refine ⟨⟨by rw [Marks.length_setAll, hs.length], ?_, ?_⟩, ?_⟩
    · intro a s ha
      have hsize : a < marks.length := hs.length ▸ hlt a ⟨s, ha⟩
      rcases Marks.getElem?_setAll new hsize with ⟨s', hs', hset⟩ | ⟨-, hset⟩
      · obtain ⟨k, hk, rfl⟩ := (hnew a s').mp hs'
        rw [hset] at ha
        obtain rfl := Option.some.inj (Option.some.inj ha)
        exact hc.standing_eq he ht hs hstart hk
      · exact hs.standing a s (hset ▸ ha)
    · intro a p ha hp
      rw [hiff p (ht a p hp)]
      rcases (hiff a (hlt a ha)).mp ha with ⟨k, hk⟩ | ha
      · exact hc.parent he ht hs.length hstart hk hp
      · exact .inr (hs.parent a p ha hp)
    · rintro a (rfl | ha)
      · exact (hiff a hstart).mpr (.inl ⟨0, hc.getElem?_zero he hmark⟩)
      · obtain ⟨s, hs'⟩ := ha
        have hsize := (List.getElem?_eq_some_iff.mp hs').1
        rw [hs.length] at hsize
        exact (hiff a hsize).mpr (.inr ⟨s, hs'⟩)
  · rename_i hmark
    refine ⟨hs, ?_⟩
    rintro a (rfl | ha)
    · obtain ⟨mark, hget⟩ : ∃ mark, marks[a]? = some mark := ⟨_, List.getElem?_eq_getElem hbound⟩
      cases mark with
      | none => exact absurd hget hmark
      | some s => exact ⟨s, hget⟩
    · exact ha

/-- However many walks there are, the marks stay right. -/
theorem Sound.foldl_markFrom (hs : t.Sound marks) (ht : t.Closed) {ids : List ClassId}
    (hids : ∀ a ∈ ids, a < t.size) :
    t.Sound (ids.foldl t.markFrom marks) ∧
      ∀ a, a ∈ ids ∨ IsMarked marks a → IsMarked (ids.foldl t.markFrom marks) a := by
  -- from one walk to the next, the marks that are there stay right and stay there
  induction ids generalizing marks with
  | nil => exact ⟨hs, fun a ha => ha.resolve_left (by simp)⟩
  | cons start ids ih =>
    obtain ⟨hsound, hmarked⟩ := hs.markFrom ht (hids start List.mem_cons_self)
    obtain ⟨hsound', hmarked'⟩ := ih hsound fun a ha => hids a (List.mem_cons_of_mem _ ha)
    refine ⟨hsound', fun a ha => hmarked' a ?_⟩
    rcases ha with ha | ha
    · rcases List.mem_cons.mp ha with rfl | ha
      · exact .inr (hmarked a (.inl rfl))
      · exact .inl ha
    · exact .inr (hmarked a (.inr ha))

/-- In the end every class has its standing as a mark. -/
theorem getElem?_marks (ht : t.Closed) (hid : id < t.size) :
    t.marks[id]? = some (some (t.standing id)) := by
  -- without any marks there is nothing to be right about
  have hinit : t.Sound (List.replicate t.size none) :=
    ⟨List.length_replicate, by simp [List.getElem?_replicate],
      by simp [IsMarked, List.getElem?_replicate]⟩
  have hrange : ∀ a ∈ List.range t.size, a < t.size := fun a => List.mem_range.mp
  obtain ⟨hsound, hmarked⟩ := hinit.foldl_markFrom ht hrange
  obtain ⟨s, hs⟩ := hmarked id (.inl (List.mem_range.mpr hid))
  rw [← marks] at hs
  rw [hs, hsound.standing id s hs]

/-! ## §5 The order by standing -/

/-- The rank of a class by its standing. -/
def rank? (t : ClassTable) (id : ClassId) : Option Rank :=
  match (t.get? id).bind ClassEntry.statement, t.standing id with
  | some statement, .rooted depth => some { depth, statement, id }
  | _, _ => none

/-- The module classes with some standing, by their position in the table. -/
def moduleClasses (t : ClassTable) (p : Standing → Bool) : List ClassId :=
  (List.range t.size).filter fun id =>
    ((t.get? id).bind ClassEntry.statement).isSome && p (t.standing id)

/-- The classes are sorted by their standing, as if no walk had relied on another. -/
theorem inheritanceOrder_eq (ht : t.Closed) : t.inheritanceOrder =
    { order := (((List.range t.size).filterMap t.rank?).mergeSort Rank.le).map Rank.id
      cycles := t.moduleClasses (· == .cyclic)
      blocked := t.moduleClasses (· == .blocked) } := by
  -- once all classes are marked, the marks are the standings
  have hrank : (List.range t.size).filterMap (t.markedRank? t.marks) =
      (List.range t.size).filterMap t.rank? := by
    refine List.filterMap_congr fun id hid => ?_
    simp only [markedRank?, rank?, getElem?_marks ht (List.mem_range.mp hid), Option.join_some]
    cases (t.get? id).bind ClassEntry.statement <;> cases t.standing id <;> rfl
  have hclasses : ∀ p q, (∀ s, p (some s) = q s) →
      t.markedClasses t.marks p = t.moduleClasses q := by
    intro p q hpq
    refine List.filter_congr fun id hid => ?_
    rw [getElem?_marks ht (List.mem_range.mp hid), Option.join_some, hpq]
  rw [inheritanceOrder, hrank, hclasses _ (· == .cyclic) (by simp),
    hclasses _ (· == .blocked) (by simp)]

end ClassTable

end FieldPromotion
