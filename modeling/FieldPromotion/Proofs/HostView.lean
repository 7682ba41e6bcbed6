import FieldPromotion.Proofs.Tables
import FieldPromotion.Proofs.InheritanceOrder
import FieldPromotion.Proofs.Steps
import Mathlib.Data.List.Sort

/-!
# The host's view of a table

A class that was added with another module has a position, which says nothing about the module at
hand. A host that registers the same class by itself gives no position. This module compares the two
tables: names refer to the same classes in both, the classes have the same ancestors and the same
fields, and only the positions and spans of the classes that were there first are missing in one.
-/

namespace FieldPromotion

/-- The class as a host would register it. -/
def ClassEntry.toHost (e : ClassEntry) : HostClass where
  name := e.name
  superclass := e.superclass
  fields := e.fields

/-- The entry without what only a class of a module has. -/
def ClassEntry.disowned (e : ClassEntry) : ClassEntry :=
  { e with span := {}, statement := none }

namespace ClassTable

variable {t u : ClassTable} {n : Nat} {id a : ClassId} {m : Module}

/-! ## §1 Classes without a module -/

/-- The classes of a table as a host would register them. -/
def hostClasses (t : ClassTable) : List HostClass :=
  t.classes.map ClassEntry.toHost

/-- The table whose first `n` classes belong to no module. -/
def disown (t : ClassTable) (n : Nat) : ClassTable :=
  { t with classes := t.classes.mapIdx fun i e => if i < n then e.disowned else e }

/-- The first classes of the table lose their statements, and nothing else changes. -/
theorem get?_disown : (t.disown n).get? id =
    (t.get? id).map fun e => if id < n then e.disowned else e := by
  simp [get?, disown, List.getElem?_mapIdx]

/-- What an entry has besides its position and its span is the same. -/
theorem bind_get?_disown {β : Type} {f : ClassEntry → Option β}
    (hf : ∀ e : ClassEntry, f e.disowned = f e) (id : ClassId) :
    ((t.disown n).get? id).bind f = (t.get? id).bind f := by
  rw [get?_disown]
  cases t.get? id with
  | none => rfl
  | some e => by_cases h : id < n <;> simp [h, hf]

@[simp] theorem size_disown : (t.disown n).size = t.size := by
  simp [size, disown]

@[simp] theorem parentOf_disown : (t.disown n).parentOf id = t.parentOf id :=
  bind_get?_disown (fun _ => rfl) id

@[simp] theorem nameOf_disown : (t.disown n).nameOf id = t.nameOf id := by
  rw [nameOf, nameOf, get?_disown, Option.map_map]
  refine congrArg (fun f => (Option.map f (t.get? id)).getD "") (funext fun e => ?_)
  by_cases h : id < n <;> simp [h, ClassEntry.disowned]

/-- The other classes keep their positions in the text. -/
theorem spanOf_disown (h : n ≤ id) : (t.disown n).spanOf id = t.spanOf id := by
  simp [spanOf, get?_disown, Nat.not_lt.mpr h]

/-- The first classes belong to no module any more. -/
theorem statement_disown : ((t.disown n).get? id).bind ClassEntry.statement =
    if id < n then none else (t.get? id).bind ClassEntry.statement := by
  rw [get?_disown]
  cases t.get? id with
  | none => simp
  | some e => by_cases h : id < n <;> simp [h, ClassEntry.disowned]

@[simp] theorem ancestors_disown : (t.disown n).ancestors id = t.ancestors id :=
  ancestors_congr size_disown (fun _ => parentOf_disown) id

@[simp] theorem standing_disown : (t.disown n).standing id = t.standing id := by
  simp [standing]

@[simp] theorem fieldIndex_disown : (t.disown n).fieldIndex id = t.fieldIndex id := by
  have horigins : (t.disown n).origins = t.origins := by
    funext a
    unfold origins
    rw [get?_disown]
    cases t.get? a with
    | none => rfl
    | some e => by_cases h : a < n <;> simp [h, ClassEntry.disowned]
  rw [fieldIndex, fieldIndex, ancestors_disown, horigins]

/-- Fields are added to the same class in both tables. -/
theorem addField_disown (field : FieldSite) :
    (t.disown n).addField id field = (t.addField id field).disown n := by
  have hclasses : ((t.disown n).addField id field).classes =
      ((t.addField id field).disown n).classes := by
    refine List.ext_getElem? fun a => ?_
    change ((t.disown n).addField id field).get? a = ((t.addField id field).disown n).get? a
    rw [get?_addField, get?_disown, get?_disown, get?_addField, Option.map_map, Option.map_map]
    refine congrArg (Option.map · (t.get? a)) (funext fun e => ?_)
    by_cases hid : a = id
    · subst hid
      by_cases hn : a < n <;> simp [hn, ClassEntry.disowned]
    · simp [hid]
  exact congrArg (ClassTable.mk · t.names t.duplicates) hclasses

/-- Adding fields and taking statements away can be done in either order. -/
theorem addFields_disown (fs : List FieldSummary) :
    fs.foldl (fun t f => t.addField id { name := f.name, span := f.span }) (t.disown n) =
      (fs.foldl (fun t f => t.addField id { name := f.name, span := f.span }) t).disown n := by
  induction fs generalizing t with
  | nil => rfl
  | cons f fs ih => rw [List.foldl_cons, List.foldl_cons, addField_disown, ih]

/-! ## §2 The inheritance order -/

/-- The classes of the module are those that are left. -/
theorem inModule_disown : (t.disown n).InModule id ↔ n ≤ id ∧ t.InModule id := by
  unfold InModule
  rw [statement_disown]
  by_cases h : id < n
  · simp [h]
  · simp [h, Nat.not_lt.mp h]

@[simp] theorem closed_disown : (t.disown n).Closed ↔ t.Closed := by
  simp [Closed]

/-- They are listed as before, without the others. -/
theorem moduleClasses_disown (p : Standing → Bool) :
    (t.disown n).moduleClasses p = (t.moduleClasses p).filter (n ≤ ·) := by
  rw [moduleClasses, moduleClasses, List.filter_filter, size_disown]
  refine List.filter_congr fun id _ => ?_
  have h : (t.disown n).InModule id ↔ n ≤ id ∧ t.InModule id := inModule_disown
  unfold InModule at h
  rw [standing_disown, Bool.eq_iff_iff]
  simp [h, and_assoc]

/-- They are ordered as before. -/
theorem precedes_disown (ha : n ≤ a) (hid : n ≤ id) :
    (t.disown n).Precedes a id ↔ t.Precedes a id := by
  have hdepth : (t.disown n).depth = t.depth := by
    funext b
    simp [depth, Inherits]
  have hposition : ∀ {b : ClassId}, n ≤ b → (t.disown n).position b = t.position b := by
    intro b hb
    rw [position, position, statement_disown, if_neg (Nat.not_lt.mpr hb)]
  rw [Precedes, Precedes, hdepth, hposition ha, hposition hid]

/-- No two classes come before each other. -/
theorem Precedes.asymm (h : t.Precedes a id) : ¬ t.Precedes id a := by
  unfold Precedes at h ⊢
  grind

instance (t : ClassTable) : Std.Asymm t.Precedes :=
  ⟨fun _ _ => Precedes.asymm⟩

/-- The classes of the module are scheduled in the same order, without the first `n`. -/
theorem order_disown (ht : t.Closed) : (t.disown n).inheritanceOrder.order =
    t.inheritanceOrder.order.filter (n ≤ ·) := by
  have hsorted : (t.inheritanceOrder.order.filter (n ≤ ·)).Pairwise (t.disown n).Precedes := by
    refine ((pairwise_order ht).filter _).imp_of_mem fun ha hb h => ?_
    simp only [List.mem_filter, decide_eq_true_eq] at ha hb
    exact (precedes_disown ha.2 hb.2).mpr h
  refine (pairwise_order (closed_disown.mpr ht)).eq_of_mem_iff hsorted fun id => ?_
  rw [mem_order_iff_end (closed_disown.mpr ht), List.mem_filter, mem_order_iff_end ht, inModule_disown,
    ancestors_disown, size_disown, decide_eq_true_eq]
  tauto

/-! ## §3 Tables without repeated names -/

/-- Every class is registered under its name, and no class repeats the name of another one in its
module. -/
structure Tidy (t : ClassTable) : Prop where
  names : t.names = ((t.classes.map ClassEntry.name).zipIdx).reverse
  duplicates : t.duplicates = []

/-- A new class keeps a table tidy. -/
theorem Tidy.register (h : t.Tidy) (e : ClassEntry) : (t.register e).Tidy where
  names := by
    show (e.name, t.size) :: t.names = (((t.classes ++ [e]).map ClassEntry.name).zipIdx).reverse
    simp [List.zipIdx_append, h.names, size]
  duplicates := h.duplicates

/-- A change that keeps the names of all classes. -/
theorem Tidy.of_names (h : t.Tidy) (hclasses : u.classes.map ClassEntry.name =
    t.classes.map ClassEntry.name) (hnames : u.names = t.names)
    (hduplicates : u.duplicates = t.duplicates) : u.Tidy where
  names := by rw [hnames, hclasses, h.names]
  duplicates := hduplicates.trans h.duplicates

theorem Tidy.resolveParents (h : t.Tidy) : t.resolveParents.Tidy := by
  refine h.of_names ?_ rfl rfl
  simp [ClassTable.resolveParents, Function.comp_def]

theorem Tidy.addField (h : t.Tidy) (id : ClassId) (field : FieldSite) :
    (t.addField id field).Tidy := by
  refine h.of_names (List.ext_getElem? fun a => ?_) rfl rfl
  have hget : (t.addField id field).classes[a]? = _ := get?_addField field
  rw [List.getElem?_map, hget, List.getElem?_map, Option.map_map]
  refine congrArg (Option.map · (t.get? a)) (funext fun e => ?_)
  by_cases ha : a = id <;> simp [ha]

/-- Entries with new names are all registered. -/
theorem intake_of_nodup (es : List ClassEntry) (i : Intake)
    (hseen : ∀ e ∈ es, i.seen.lookup e.name = none) (hnodup : (es.map ClassEntry.name).Nodup) :
    (es.foldl Intake.add i).table = es.foldl ClassTable.register i.table := by
  induction es generalizing i with
  | nil => rfl
  | cons e es ih =>
    rw [List.map_cons, List.nodup_cons] at hnodup
    -- no earlier class of the module has the name, so nothing is noted as a repeat
    have hadd : i.add e = { table := i.table.register e, seen := (e.name, i.table.size) :: i.seen } := by
      rw [Intake.add, hseen e List.mem_cons_self]
    rw [List.foldl_cons, List.foldl_cons, hadd]
    refine ih _ (fun x hx => ?_) hnodup.2
    have hne : (x.name == e.name) = false := by
      rw [beq_eq_false_iff_ne]
      exact fun hname => hnodup.1 (hname ▸ List.mem_map_of_mem hx)
    rw [List.lookup_cons, hne]
    exact hseen x (List.mem_cons_of_mem e hx)

/-- A module without repeats keeps a table tidy. -/
theorem Tidy.registerModule (h : t.Tidy)
    (hnodup : ((entriesOf m).map ClassEntry.name).Nodup) : (t.registerModule m).Tidy := by
  apply Tidy.resolveParents
  rw [takeUp, intake_of_nodup _ _ (fun _ _ => rfl) hnodup]
  show ((entriesOf m).foldl ClassTable.register t).Tidy
  generalize entriesOf m = es
  induction es generalizing t with
  | nil => exact h
  | cons e es ih => exact ih (h.register e)

/-! ## §4 The same classes registered by a host -/

/-- The table of a host is tidy. -/
theorem tidy_ofHost (hosts : List HostClass) : (ofHost hosts).Tidy := by
  induction hosts using List.reverseRecOn with
  | nil => exact ⟨rfl, rfl⟩
  | append_singleton hosts x ih =>
    rw [ofHost_append]
    exact ih.register _

/-- Registering the classes of a tidy table as host classes gives the same index of names. -/
theorem names_ofHost_hostClasses (h : t.Tidy) : (ofHost t.hostClasses).names = t.names := by
  rw [(tidy_ofHost _).names, h.names, ofHost_classes, hostClasses]
  simp [Function.comp_def, ClassEntry.toHost, Meaning.name]

/-- What names refer to after taking up a module depends on what they referred to before. -/
theorem names_intake (es : List ClassEntry) {i j : Intake} (hseen : i.seen = j.seen)
    (hsize : i.table.size = j.table.size) (hnames : i.table.names = j.table.names) :
    (es.foldl Intake.add i).table.names = (es.foldl Intake.add j).table.names := by
  induction es generalizing i j with
  | nil => exact hnames
  | cons e es ih =>
    rw [List.foldl_cons, List.foldl_cons]
    unfold Intake.add
    rw [hseen]
    cases j.seen.lookup e.name with
    | some first => exact ih rfl (by simpa [size, push] using hsize) hnames
    | none =>
      refine ih (by rw [hsize]) (by simpa [size, push, ClassTable.register] using hsize) ?_
      show (e.name, i.table.size) :: i.table.names = (e.name, j.table.size) :: j.table.names
      rw [hsize, hnames]

/-- The classes of a module come after those that are there. -/
theorem get?_takeUp (t : ClassTable) (m : Module) (id : ClassId) : (t.takeUp m).get? id =
    if id < t.size then t.get? id else (entriesOf m)[id - t.size]? := by
  rw [get?, takeUp, (intake_spec _ _).1, List.getElem?_append]
  rfl

/-- The table of a module and of a host that has registered the classes of `t` is the table of the
module and `t`, without the positions that `t` has from elsewhere. -/
theorem registerModule_ofHost_hostClasses (h : t.Tidy) (m : Module) :
    (ofHost t.hostClasses).registerModule m = (t.registerModule m).disown t.size := by
  have hsize : (ofHost t.hostClasses).size = t.size := by
    rw [ofHost_size, hostClasses, List.length_map, size]
  have hnames : ((ofHost t.hostClasses).takeUp m).names = (t.takeUp m).names :=
    names_intake _ rfl hsize (names_ofHost_hostClasses h)
  have hlookup : ((ofHost t.hostClasses).takeUp m).lookup = (t.takeUp m).lookup := by
    funext x
    rw [lookup, lookup, hnames]
  have hduplicates : ((ofHost t.hostClasses).takeUp m).duplicates = (t.takeUp m).duplicates := by
    rw [takeUp, takeUp, (intake_spec _ _).2.2.2, (intake_spec _ _).2.2.2, hsize, ofHost_duplicates,
      h.duplicates]
  have hclasses : ((ofHost t.hostClasses).registerModule m).classes =
      ((t.registerModule m).disown t.size).classes := by
    refine List.ext_getElem? fun id => ?_
    change ((ofHost t.hostClasses).takeUp m).resolveParents.get? id =
      ((t.takeUp m).resolveParents.disown t.size).get? id
    rw [get?_disown, get?_resolveParents, get?_resolveParents, get?_takeUp, get?_takeUp, hsize,
      hlookup, Option.map_map]
    by_cases hid : id < t.size
    · -- a class that was there before
      have hhost : (ofHost t.hostClasses).get? id =
          (t.get? id).map fun e => (Meaning.host e.toHost).entry := by
        simp [get?, ofHost_classes, hostClasses, Function.comp_def]
      rw [if_pos hid, if_pos hid, hhost, Option.map_map]
      refine congrArg (Option.map · (t.get? id)) (funext fun e => ?_)
      simp only [Function.comp, if_pos hid]
      rfl
    · -- a class of the module
      simp only [Function.comp_def, if_neg hid]
  show ClassTable.mk _ _ _ = ClassTable.mk _ _ _
  rw [ClassTable.mk.injEq]
  exact ⟨hclasses, hnames, hduplicates⟩

end ClassTable

end FieldPromotion
