import FieldPromotion.Classes.Table

/-!
# Inheritance order

Superclasses come before the classes that extend them. A class whose chain of superclasses loops
has no place in that order: it lies on the loop itself, or is blocked by one above it.

How a class stands is found by walking up from it. A walk ends at a class without parent, at a class
that an earlier walk has marked already, or at a class that it has met itself; then all classes on
its path get their marks. So every class is walked over once, whatever class a walk starts from.
-/

namespace FieldPromotion

/-- How a class stands in the hierarchy: at some depth below a root, on a loop, or below one. -/
inductive Standing where
  | rooted (depth : Nat)
  | cyclic
  | blocked
  deriving DecidableEq, Inhabited

/-- The classes of a module by their standing: `order` has those below a root, superclasses
first. -/
structure InheritanceOrder where
  order : List ClassId := []
  cycles : List ClassId := []
  blocked : List ClassId := []
  deriving DecidableEq, Inhabited

/-! ## §1 Walking up -/

/-- The marks of all classes of a table. A class that no walk has come to has none. -/
abbrev Marks := List (Option Standing)

/-- The classes on a walk, the one it started from first, and the position of each on the path. -/
structure Walk where
  path : List ClassId := []
  positions : List (ClassId × Nat) := []
  deriving DecidableEq, Inhabited

/-- Where a walk ends: above a class without parent, at a class with a mark, or at a class that
stands at some position of its own path. -/
inductive WalkEnd where
  | root
  | marked (standing : Standing)
  | onPath (position : Nat)
  deriving DecidableEq, Inhabited

namespace Walk

/-- Goes on to a class. -/
def push (w : Walk) (id : ClassId) : Walk where
  path := w.path ++ [id]
  positions := (id, w.path.length) :: w.positions

/-- The number of classes that are not on a walk. -/
def unmet (w : Walk) (size : Nat) : Nat :=
  ((List.range size).filter fun id => (w.positions.lookup id).isNone).length

/-- With every step there are fewer classes left. -/
theorem unmet_push_lt {w : Walk} {id size : Nat} (hid : id < size)
    (hnew : w.positions.lookup id = none) : (w.push id).unmet size < w.unmet size := by
  have hfilter : ((List.range size).filter fun a => ((w.push id).positions.lookup a).isNone) =
      ((List.range size).filter fun a => (w.positions.lookup a).isNone).filter (· != id) := by
    rw [List.filter_filter]
    refine List.filter_congr fun a _ => ?_
    cases ha : a == id <;> simp [push, List.lookup_cons, ha, bne]
  rw [unmet, unmet, hfilter, List.length_filter_lt_length_iff_exists]
  exact ⟨id, by simp [hid, hnew], by simp⟩

end Walk

namespace ClassTable

/-- Walks up from a class, or from nowhere if the last class had no parent. Outside the table there is
no class to go on from. -/
def walkUp (t : ClassTable) (marks : Marks) (w : Walk) (current : Option ClassId) :
    Walk × WalkEnd :=
  match current with
  | none => (w, .root)
  | some id =>
    match _ : marks[id]? with
    | none => (w, .root)
    | some (some standing) => (w, .marked standing)
    | some none =>
      match _ : w.positions.lookup id with
      | some position => (w, .onPath position)
      | none => t.walkUp marks (w.push id) (t.parentOf id)
termination_by w.unmet marks.length
decreasing_by
  rename_i hmark hnew
  exact Walk.unmet_push_lt (List.getElem?_eq_some_iff.mp hmark).1 hnew

end ClassTable

/-! ## §2 Marking -/

namespace Marks

/-- Sets some marks. -/
def setAll (marks : Marks) (new : List (ClassId × Standing)) : Marks :=
  new.foldl (fun marks p => marks.set p.1 (some p.2)) marks

/-- Marks a path with depths. Its last class, which is nearest to the root, has the given one. -/
def setDepths (marks : Marks) (path : List ClassId) (base : Nat) : Marks :=
  marks.setAll (path.reverse.zipIdx.map fun p => (p.1, .rooted (base + p.2)))

/-- Marks the path of a walk according to where it ended. -/
def settle (marks : Marks) (path : List ClassId) : WalkEnd → Marks
  | .root => marks.setDepths path 0
  | .marked (.rooted depth) => marks.setDepths path (depth + 1)
  | .marked .cyclic | .marked .blocked => marks.setAll (path.map fun id => (id, .blocked))
  | .onPath position =>
    -- the path from that position on is the loop
    marks.setAll (path.zipIdx.map fun p => (p.1, if position ≤ p.2 then .cyclic else .blocked))

end Marks

namespace ClassTable

/-- Walks up from a class, unless an earlier walk has come to it. -/
def markFrom (t : ClassTable) (marks : Marks) (start : ClassId) : Marks :=
  match marks[start]? with
  | some none =>
    let (w, ending) := t.walkUp marks {} (some start)
    marks.settle w.path ending
  | _ => marks

/-- The marks of all classes. -/
def marks (t : ClassTable) : Marks :=
  (List.range t.size).foldl t.markFrom (List.replicate t.size none)

/-! ## §3 The order -/

/-- The rank of a class in the order: its depth, its position in the module, its position in the
table. -/
structure Rank where
  depth : Nat
  statement : Nat
  id : ClassId
  deriving DecidableEq, Inhabited

/-- Ranks are compared part by part. -/
def Rank.le (a b : Rank) : Bool :=
  a.depth < b.depth || (a.depth == b.depth &&
    (a.statement < b.statement || (a.statement == b.statement && a.id ≤ b.id)))

/-- The rank of a module class that is marked with a depth. -/
def markedRank? (t : ClassTable) (marks : Marks) (id : ClassId) : Option Rank :=
  match (t.get? id).bind ClassEntry.statement, (marks[id]?).join with
  | some statement, some (.rooted depth) => some { depth, statement, id }
  | _, _ => none

/-- The module classes with some mark, by their position in the table. -/
def markedClasses (t : ClassTable) (marks : Marks) (p : Option Standing → Bool) : List ClassId :=
  (List.range t.size).filter fun id =>
    ((t.get? id).bind ClassEntry.statement).isSome && p (marks[id]?).join

/-- The module classes sorted by inheritance. A class without a mark would count as blocked. -/
def inheritanceOrder (t : ClassTable) : InheritanceOrder :=
  let marks := t.marks
  { order := (((List.range t.size).filterMap (t.markedRank? marks)).mergeSort Rank.le).map Rank.id
    cycles := t.markedClasses marks (· == some .cyclic)
    blocked := t.markedClasses marks fun mark => mark == some .blocked || mark == none }

end ClassTable

end FieldPromotion
