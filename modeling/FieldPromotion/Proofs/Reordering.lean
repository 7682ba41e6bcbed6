import FieldPromotion.Proofs.Run
import FieldPromotion.Tree.Build
import Mathlib

/-!
# The order of statements

What becomes of a class depends on the class and on the classes above it, and these are found by
their names. When no name is declared twice, the order of the statements says nothing about them. So
a module with its statements in another order has the same outcome, in that order.
-/

namespace FieldPromotion

/-- A trial without the position of its class. -/
def Trial.unplaced (t : Trial) : Trial :=
  { t with cls := { t.cls with position := 0 } }

namespace Module

variable {m m' out out' : Module} {hosts : List HostClass} {options : Options} {d d' : Declared}
  {trials trials' : List Trial} {order : List Nat} {c : ClassDecl} {n : String}

/-! ## §1 Distinct names -/

/-- No two classes of the module have the same name. -/
def DistinctNames (m : Module) : Prop :=
  (m.classes.map (·.name.name)).Nodup

instance (m : Module) : Decidable m.DistinctNames :=
  inferInstanceAs (Decidable (List.Nodup _))

/-- The classes of a module are the declared ones. -/
theorem mem_classes_iff : c ∈ m.classes ↔ ∃ d ∈ m.declared, d.decl = c := by
  rw [← map_decl_declared, List.mem_map]

/-- With distinct names, every name refers to the class that has it. -/
theorem DistinctNames.declaration? (h : m.DistinctNames) (hd : d ∈ m.declared) :
    m.declaration? d.name = some d := by
  obtain ⟨e, he⟩ := declaration?_isSome hd
  unfold DistinctNames at h
  rw [← map_decl_declared, List.map_map] at h
  rw [he, List.inj_on_of_nodup_map h (mem_of_declaration? he) hd (name_of_declaration? he)]

/-- If no name is used twice, a name refers to the class that has it. -/
theorem DistinctNames.decl_eq_some_iff (h : m.DistinctNames) :
    (m.declaration? n).map Declared.decl = some c ↔ c ∈ m.classes ∧ c.name.name = n := by
  rw [Option.map_eq_some_iff, mem_classes_iff]
  constructor
  · rintro ⟨d, hd, rfl⟩
    exact ⟨⟨d, mem_of_declaration? hd, rfl⟩, name_of_declaration? hd⟩
  · rintro ⟨⟨d, hd, rfl⟩, rfl⟩
    exact ⟨d, h.declaration? hd, rfl⟩

/-! ## §2 The same classes in another order -/

/-- Two modules with the same classes, whose names are distinct. -/
structure SameClasses (m m' : Module) : Prop where
  distinct : m.DistinctNames
  perm : m.classes.Perm m'.classes

namespace SameClasses

/-- Being a rearrangement works both ways. -/
theorem symm (h : m.SameClasses m') : m'.SameClasses m where
  distinct := (h.perm.map _).nodup h.distinct
  perm := h.perm.symm

/-- A name refers to the same class in both modules. -/
theorem sameDecl (h : m.SameClasses m') (n : String) : m.SameDecl m' n := by
  refine Option.ext fun c => ?_
  rw [h.distinct.decl_eq_some_iff, h.symm.distinct.decl_eq_some_iff, h.perm.mem_iff]

theorem sameAbove (h : m.SameClasses m') (hosts : List HostClass) (s : Option String) :
    m.SameAbove m' hosts s :=
  fun n _ => h.sameDecl n

/-- Every class is declared in the other module as well. -/
theorem exists_declared (h : m.SameClasses m') (hd : d ∈ m.declared) :
    ∃ d' ∈ m'.declared, d'.decl = d.decl :=
  mem_classes_iff.mp (h.perm.mem_iff.mp (mem_classes_iff.mpr ⟨d, hd, rfl⟩))

/-- There are no repeats to report. -/
theorem repeatErrors_eq (h : m.SameClasses m') : m.repeatErrors = [] := by
  refine List.filterMap_eq_nil_iff.mpr fun d hd => ?_
  simp [repeatError?, h.distinct.declaration? hd]

theorem onCycle (h : m.SameClasses m') (hd' : d' ∈ m'.declared) (hdecl : d'.decl = d.decl) :
    m.OnCycle hosts d → m'.OnCycle hosts d' :=
  (h.sameAbove hosts _).sameSuperclasses.onCycle (h.symm.distinct.declaration? hd')
    (congrArg (·.name.name) hdecl) (congrArg (·.superclass.map Ident.name) hdecl)

theorem leadsToHostCycle (h : m.SameClasses m') (hdecl : d'.decl = d.decl) :
    m.LeadsToHostCycle hosts d → m'.LeadsToHostCycle hosts d' := by
  apply (h.sameAbove hosts _).sameSuperclasses.leadsToHostCycle
  · intro n hn
    exact (h.sameDecl n).declaration?_eq_none hn
  · exact congrArg (·.superclass.map Ident.name) hdecl

open Classical in
/-- The classes with some property are the same, up to order, when the property does not depend on
where a class stands. -/
theorem perm_filter (h : m.SameClasses m') (P P' : Declared → Prop)
    (hP : ∀ d ∈ m.declared, ∀ d' ∈ m'.declared, d'.decl = d.decl → (P d ↔ P' d')) :
    ((m.declared.filter (P ·)).map Declared.decl).Perm
      ((m'.declared.filter (P' ·)).map Declared.decl) := by
  -- with distinct names no class is there twice, so it is enough to compare which ones are there
  have hnodup : ∀ {m : Module} (Q : Declared → Prop), m.DistinctNames →
      ((m.declared.filter (Q ·)).map Declared.decl).Nodup := by
    intro m Q hm
    have hclasses : (m.declared.map Declared.decl).Nodup := by
      rw [map_decl_declared]
      exact List.Nodup.of_map _ hm
    exact hclasses.sublist (List.filter_sublist.map _)
  rw [List.perm_ext_iff_of_nodup (hnodup P h.distinct) (hnodup P' h.symm.distinct)]
  intro c
  simp only [List.mem_map, List.mem_filter, decide_eq_true_eq]
  constructor
  · rintro ⟨d, ⟨hd, hPd⟩, rfl⟩
    obtain ⟨d', hd', hdecl⟩ := h.exists_declared hd
    exact ⟨d', ⟨hd', (hP d hd d' hd' hdecl).mp hPd⟩, hdecl⟩
  · rintro ⟨d', ⟨hd', hPd'⟩, rfl⟩
    obtain ⟨d, hd, hdecl⟩ := h.symm.exists_declared hd'
    exact ⟨d, ⟨hd, (hP d hd d' hd' hdecl.symm).mpr hPd'⟩, hdecl⟩

/-- The same loops are reported, in another order. -/
theorem perm_loopErrors (h : m.SameClasses m') (hosts : List HostClass) :
    (m.loopErrors hosts).Perm (m'.loopErrors hosts) := by
  have hcycle := h.perm_filter (m.OnCycle hosts) (m'.OnCycle hosts)
    fun d hd d' hd' hdecl => ⟨h.onCycle hd' hdecl, h.symm.onCycle hd hdecl.symm⟩
  have hlead := h.perm_filter (m.LeadsToHostCycle hosts) (m'.LeadsToHostCycle hosts)
    fun d _ d' _ hdecl => ⟨h.leadsToHostCycle hdecl, h.symm.leadsToHostCycle hdecl.symm⟩
  have herrors := (hcycle.append hlead).map fun c =>
    Error.cyclicInheritance c.name.name c.name.span
  rw [← List.map_append, ← List.map_append, List.map_map, List.map_map] at herrors
  exact herrors

end SameClasses

/-! ## §3 The same trials in another order -/

/-- Trials can be told apart without their positions. -/
theorem IsSchedule.nodup_unplaced (h : m.IsSchedule hosts options out trials) :
    (trials.map Trial.unplaced).Nodup := by
  have hnodup : trials.Nodup := by
    refine h.sorted.imp ?_
    rintro t _ hlt rfl
    exact hlt.asymm hlt
  refine hnodup.map_on fun t ht u hu heq => ?_
  obtain ⟨⟨i, c⟩, r⟩ := t
  obtain ⟨⟨j, c'⟩, r'⟩ := u
  simp only [Trial.unplaced, Trial.mk.injEq, Declared.mk.injEq, true_and] at heq
  obtain ⟨rfl, rfl⟩ := heq
  -- a class that is tried is the one its name refers to
  have hi := ((h.mem_iff _).mp ht).1.declaration?
  have hj := ((h.mem_iff _).mp hu).1.declaration?
  obtain rfl : i = j := congrArg Declared.position (Option.some.inj (hi.symm.trans hj))
  rfl

section Outcomes

variable {result result' : Except (List Error) Report} (hm : m.SameClasses m')
  (h : m.Promotes hosts options out result) (h' : m'.Promotes hosts options out' result')
include hm h h'

/-- What happens to a class depends on its superclasses only, so the other schedule has the same
trial at another position. -/
theorem SameClasses.mem_unplaced (hs : m.IsSchedule hosts options out trials)
    (hs' : m'.IsSchedule hosts options out' trials') {t : Trial}
    (ht : t ∈ trials.map Trial.unplaced) : t ∈ trials'.map Trial.unplaced := by
  obtain ⟨u, hu, rfl⟩ := List.mem_map.mp ht
  obtain ⟨hatt, hgives⟩ := (hs.mem_iff u).mp hu
  obtain ⟨d', hd', hdecl⟩ := hm.exists_declared (mem_of_declaration? hatt.declaration?)
  have htried := h.tried h' (hm.sameAbove hosts _) hdecl (hm.symm.distinct.declaration? hd') hatt
    hgives
  refine List.mem_map.mpr ⟨⟨d', u.result⟩, (hs'.mem_iff _).mpr htried, ?_⟩
  simp [Trial.unplaced, hdecl]

/-- Two schedules of rearranged modules have the same trials. -/
theorem SameClasses.perm_unplaced (hs : m.IsSchedule hosts options out trials)
    (hs' : m'.IsSchedule hosts options out' trials') :
    (trials.map Trial.unplaced).Perm (trials'.map Trial.unplaced) := by
  rw [List.perm_ext_iff_of_nodup hs.nodup_unplaced hs'.nodup_unplaced]
  intro t
  exact ⟨hm.mem_unplaced h h' hs hs', hm.symm.mem_unplaced h' h hs' hs⟩

end Outcomes

/-- The same result up to the order in which errors or reports are listed. -/
def SameListing : Except (List Error) Report → Except (List Error) Report → Prop
  | .ok report, .ok report' => report.classes.Perm report'.classes
  | .error errors, .error errors' => errors.Perm errors'
  | .ok _, .error _ => False
  | .error _, .ok _ => False

/-- Rearranged errors and reports lead to the same verdict. -/
theorem sameListing_verdict {errors errors' : List Error} {reports reports' : List ClassReport}
    (herrors : errors.Perm errors') (hreports : reports.Perm reports') :
    SameListing (verdict errors reports) (verdict errors' reports') := by
  cases errors with
  | nil =>
    obtain rfl := herrors.nil_eq
    exact hreports
  | cons e es =>
    cases errors' with
    | nil => exact absurd herrors.eq_nil (List.cons_ne_nil e es)
    | cons e' es' => exact herrors

/-- Modules with the same statements in another order have the same result in another order. -/
theorem Promotes.sameListing {result result' : Except (List Error) Report}
    (h : m.Promotes hosts options out result) (h' : m'.Promotes hosts options out' result')
    (hdistinct : m.DistinctNames) (hperm : m.statements.Perm m'.statements) :
    SameListing result result' := by
  have hm : m.SameClasses m' := ⟨hdistinct, hperm.filterMap _⟩
  obtain ⟨trials, hs, rfl⟩ := h.result
  obtain ⟨trials', hs', rfl⟩ := h'.result
  -- what is reported for a class does not depend on its position
  have htrials := hm.perm_unplaced h h' hs hs'
  apply sameListing_verdict
  · unfold allErrors
    rw [hm.repeatErrors_eq, hm.symm.repeatErrors_eq]
    apply List.Perm.append
    · exact ((hperm.flatMap_right _).append (.refl [])).append (hm.perm_loopErrors hosts)
    · have herrors := htrials.flatMap_right Trial.errors
      rw [List.flatMap_map, List.flatMap_map] at herrors
      exact herrors
  · have hreports := htrials.filterMap Trial.report?
    rw [List.filterMap_map, List.filterMap_map] at hreports
    exact hreports

/-! ## §4 Statements in another order -/

/-- The module whose statement at `j` is the statement of `m` at `order[j]`. -/
def reorder (m : Module) (order : List Nat) : Module :=
  { m with statements := order.filterMap (m.statements[·]?) }

/-- The statement at a place of the new order is the one at the position that stands there. -/
theorem getElem?_reorder (h : ∀ i ∈ order, i < m.statements.length) (j : Nat) :
    (m.reorder order).statements[j]? = (order[j]?).bind (m.statements[·]?) := by
  show (order.filterMap (m.statements[·]?))[j]? = _
  induction order generalizing j with
  | nil => rfl
  | cons i order ih =>
    have hlt : i < m.statements.length := h i List.mem_cons_self
    rw [List.filterMap_cons_some (List.getElem?_eq_getElem hlt)]
    cases j with
    | zero => simp [hlt]
    | succ j => exact ih (fun k hk => h k (List.mem_cons_of_mem i hk)) j

theorem filterMap_range_getElem? {α : Type} (l : List α) :
    (List.range l.length).filterMap (l[·]?) = l := by
  induction l with
  | nil => rfl
  | cons a l ih =>
    rw [List.length_cons, List.range_succ_eq_map,
      List.filterMap_cons_some List.getElem?_cons_zero, List.filterMap_map]
    exact congrArg (a :: ·) ih

section Reordered

variable (horder : order.Perm (List.range m.statements.length))
include horder

theorem lt_of_mem_order : ∀ i ∈ order, i < m.statements.length :=
  fun _ hi => List.mem_range.mp (horder.mem_iff.mp hi)

/-- The statements are only moved. -/
theorem perm_reorder : m.statements.Perm (m.reorder order).statements := by
  have hperm := horder.filterMap (m.statements[·]?)
  rw [filterMap_range_getElem?] at hperm
  exact hperm.symm

theorem classAt?_reorder {i j : Nat} (hj : order[j]? = some i) :
    (m.reorder order).classAt? j = m.classAt? i := by
  rw [classAt?, classAt?, getElem?_reorder (lt_of_mem_order horder), hj, Option.bind_some]

/-- In an outcome for the reordered module each statement becomes what it becomes in an outcome for
the module itself. -/
theorem Promotes.eq_reorder {result result' : Except (List Error) Report}
    (h : m.Promotes hosts options out result)
    (h' : (m.reorder order).Promotes hosts options out' result') (hdistinct : m.DistinctNames) :
    out' = out.reorder order := by
  have hm : m.SameClasses (m.reorder order) := ⟨hdistinct, (perm_reorder horder).filterMap _⟩
  have hlt : ∀ i ∈ order, i < out.statements.length := by
    rw [h.sameHeads.length]
    exact lt_of_mem_order horder
  have hstatements : out'.statements = (out.reorder order).statements := by
    refine List.ext_getElem? fun j => ?_
    rw [getElem?_reorder hlt]
    cases hj : order[j]? with
    | none =>
      -- beyond the last statement
      have hlen : out'.statements.length = order.length := by
        rw [h'.sameHeads.length, ← (perm_reorder horder).length_eq, horder.length_eq,
          List.length_range]
      rw [Option.bind_none, List.getElem?_eq_none_iff, hlen]
      exact List.getElem?_eq_none_iff.mp hj
    | some i =>
      rw [Option.bind_some]
      have hat := classAt?_reorder horder hj
      cases hc : m.classAt? i with
      | none =>
        rw [h.kept_of_not_class hc, h'.kept_of_not_class (hat.trans hc),
          getElem?_reorder (lt_of_mem_order horder), hj, Option.bind_some]
      | some c =>
        have hd : (⟨i, c⟩ : Declared) ∈ m.declared := mem_declared_iff.mpr hc
        have hd' : (⟨j, c⟩ : Declared) ∈ (m.reorder order).declared :=
          mem_declared_iff.mpr (hat.trans hc)
        refine h.statement_eq h' (hm.sameAbove hosts _) ?_ (hm.distinct.declaration? hd)
          (hm.symm.distinct.declaration? hd')
        rfl
  have hspan : out'.span = out.span := h'.span.trans h.span.symm
  cases out
  cases out'
  simp_all [reorder]

end Reordered

/-- When no two classes of a module have the same name, promotion of the module with its statements
in another order makes the same statements in that order, and returns the same errors or the same
reports in some order. -/
theorem promote_reorder (horder : order.Perm (List.range m.statements.length))
    (hdistinct : m.DistinctNames) (hosts : List HostClass) (options : Options) :
    ((m.reorder order).promote (ClassTable.ofHost hosts) options).module =
        (m.promote (ClassTable.ofHost hosts) options).module.reorder order ∧
      SameListing (m.promote (ClassTable.ofHost hosts) options).result
        ((m.reorder order).promote (ClassTable.ofHost hosts) options).result := by
  have h := promotes_promote m hosts options
  have h' := promotes_promote (m.reorder order) hosts options
  exact ⟨h.eq_reorder horder h' hdistinct, h.sameListing h' hdistinct (perm_reorder horder)⟩

/-- Two classes, the one below before the one above, and a function between them. -/
def vehicles : Module where
  statements :=
    [.classDecl { ClassDecl.named "Truck" with
        superclass := some { name := "Vehicle" }
        members := [.ctor (.make [(Param.named "load").withModifier (.storage .var)] [])] },
     .funDecl (.make "weigh" [.named "vehicle"] []),
     .classDecl ((ClassDecl.named "Vehicle").withMember (.ctor (.make
        [(Param.named "load").withModifier (.storage .final)] [])))]

/-- With a clash in a superclass, the errors stay the same and the classes left alone move with the
others. -/
theorem promote_reorder_vehicles :
    (vehicles.reorder [2, 0, 1]).statements ≠ vehicles.statements ∧
      (vehicles.promote (ClassTable.ofHost []) {}).result =
        .error [.duplicateField "load" "Vehicle" {} {}] ∧
      ((vehicles.reorder [2, 0, 1]).promote (ClassTable.ofHost []) {}).module =
        (vehicles.promote (ClassTable.ofHost []) {}).module.reorder [2, 0, 1] ∧
      SameListing (vehicles.promote (ClassTable.ofHost []) {}).result
        ((vehicles.reorder [2, 0, 1]).promote (ClassTable.ofHost []) {}).result := by
  refine ⟨?_, by cbv, promote_reorder (by decide) (by decide) [] {}⟩
  simp [vehicles, reorder]

end Module

end FieldPromotion
