import FieldPromotion.Proofs.Run
import FieldPromotion.Tree.Build
import Mathlib

/-!
# Faults

A class that is not accepted has a fault, or there is a class with a fault above it, and every fault
is an error of the module. So no class is left out without an error that is about it or about a class
that it inherits from.
-/

namespace FieldPromotion.Module

variable {m out : Module} {hosts : List HostClass} {options : Options} {d : Declared}
  {ns : List String} {trials : List Trial}

/-! ## §1 Faults -/

/-- What can be wrong with a class itself: something is misplaced inside, it repeats a name, it is on
a loop or leads into one of the host, or its own promotion fails. -/
def Faulty (m : Module) (hosts : List HostClass) (options : Options) (out : Module)
    (d : Declared) : Prop :=
  (Stmt.classDecl d.decl).misplacedTop ≠ [] ∨ m.declaration? d.name ≠ some d ∨
    (m.OnCycle hosts d ∨ m.LeadsToHostCycle hosts d) ∨
    ∃ errors, m.Attempted hosts options out d ∧ m.Gives hosts options out d (.error errors)

/-- With nothing wrong at a class, and all classes of the module above it accepted, the class is
accepted. -/
theorem exists_succeeds (hns : m.Chain hosts d.superclass ns)
    (habove : ∀ n ∈ ns, ∀ a, m.declaration? n = some a → ∃ new, m.Succeeds hosts options out a new)
    (hd : ¬ m.Faulty hosts options out d) : ∃ new, m.Succeeds hosts options out d new := by
  unfold Faulty at hd
  push Not at hd
  obtain ⟨hplaced, hfirst, -, hgives⟩ := hd
  have hatt := hns.attempted_iff.mpr ⟨hfirst, hplaced, habove⟩
  obtain ⟨r, hr⟩ := hns.exists_gives options out
  cases r with
  | ok new => exact ⟨new, hatt, hr⟩
  | error errors => exact absurd hr (hgives errors hatt)

/-- If a class is not accepted, there is a fault at it or above it. -/
theorem exists_faulty (hd : d ∈ m.declared) (h : ¬ ∃ new, m.Succeeds hosts options out d new) :
    ∃ e ∈ m.declared, m.Faulty hosts options out e ∧
      (e = d ∨ ∃ n, m.Above hosts d.superclass n ∧ m.declaration? n = some e) := by
  by_cases hchain : ∃ ns, m.Chain hosts d.superclass ns
  · obtain ⟨ns, hns⟩ := hchain
    revert hd h
    apply hns.induction
    intro d ns hns ih hd h
    by_cases hself : m.Faulty hosts options out d
    · exact ⟨d, hd, hself, Or.inl rfl⟩
    · by_cases habove : ∀ n ∈ ns, ∀ a, m.declaration? n = some a →
          ∃ new, m.Succeeds hosts options out a new
      · exact absurd (exists_succeeds hns habove hself) h
      · -- go up to a class that is not accepted
        push Not at habove
        obtain ⟨n, hn, a, ha, hnot⟩ := habove
        have hna := hns.above_iff.mpr hn
        obtain ⟨e, he, hfault, hea⟩ :=
          ih n hn a ha (mem_of_declaration? ha) fun ⟨new, hs⟩ => hnot new hs
        refine ⟨e, he, hfault, Or.inr ?_⟩
        rcases hea with rfl | ⟨x, hx, hxe⟩
        · exact ⟨n, hna, ha⟩
        · exact ⟨x, hna.trans (meaning_own hosts ha) hx, hxe⟩
  · obtain ⟨e, he, hloop, hed⟩ := exists_looping hd hchain
    exact ⟨e, he, Or.inr (Or.inr (Or.inl hloop)), hed⟩

/-! ## §2 Errors about a class -/

/-- `m.Concerns hosts trials d e`: the class `d` is what the error `e` is about. -/
inductive Concerns (m : Module) (hosts : List HostClass) (trials : List Trial) (d : Declared) :
    Error → Prop
  /-- A modifier is misplaced inside the class. -/
  | inside {e : Error} : e ∈ (Stmt.classDecl d.decl).misplacedTop → Concerns m hosts trials d e
  /-- An earlier class has its name. -/
  | repeated {first : Declared} : m.declaration? d.name = some first →
      first.position < d.position →
      Concerns m hosts trials d (.duplicateClass d.name first.decl.name.span d.decl.name.span)
  /-- It is on a loop, or leads into one of the host. -/
  | looping : m.OnCycle hosts d ∨ m.LeadsToHostCycle hosts d →
      Concerns m hosts trials d (.cyclicInheritance d.name d.decl.name.span)
  /-- Its own promotion gave the error. -/
  | own {errors : List Error} {e : Error} : ⟨d, .error errors⟩ ∈ trials → e ∈ errors →
      Concerns m hosts trials d e

theorem mem_misplaced (hd : d ∈ m.declared) {e : Error}
    (he : e ∈ (Stmt.classDecl d.decl).misplacedTop) : e ∈ m.misplaced := by
  have hs := statement_of_classAt? (mem_declared_iff.mp hd)
  exact List.mem_flatMap.mpr ⟨_, List.mem_of_getElem? hs, he⟩

/-- A class that no name refers to comes after the one its name refers to. -/
theorem exists_first (hd : d ∈ m.declared) (h : m.declaration? d.name ≠ some d) :
    ∃ first, m.declaration? d.name = some first ∧ first.position < d.position := by
  obtain ⟨first, hfirst⟩ := declaration?_isSome hd
  obtain ⟨-, -, hmin⟩ := declaration?_eq_some_iff.mp hfirst
  refine ⟨first, hfirst, ?_⟩
  rcases Nat.lt_trichotomy first.position d.position with hlt | heq | hgt
  · exact hlt
  · obtain rfl := Declared.eq_of_position hd (mem_of_declaration? hfirst) heq.symm
    exact absurd hfirst h
  · exact absurd rfl (hmin d.position d.decl hgt (mem_declared_iff.mp hd))

theorem mem_loopErrors (hd : d ∈ m.declared)
    (h : m.OnCycle hosts d ∨ m.LeadsToHostCycle hosts d) :
    .cyclicInheritance d.name d.decl.name.span ∈ m.loopErrors hosts := by
  refine List.mem_map.mpr ⟨d, ?_, rfl⟩
  simpa [hd] using h

/-- A fault is reported with an error about the class. -/
theorem IsSchedule.exists_concerns (h : m.IsSchedule hosts options out trials)
    (hd : d ∈ m.declared) (hfault : m.Faulty hosts options out d) :
    ∃ e ∈ m.allErrors hosts trials, m.Concerns hosts trials d e := by
  simp only [allErrors, List.mem_append]
  rcases hfault with hmis | hrep | hloop | ⟨errors, hatt, hgives⟩
  · obtain ⟨e, he⟩ := List.exists_mem_of_ne_nil _ hmis
    exact ⟨e, Or.inl (Or.inl (Or.inl (mem_misplaced hd he))), .inside he⟩
  · obtain ⟨first, hfirst, hlt⟩ := exists_first hd hrep
    refine ⟨_, Or.inl (Or.inl (Or.inr ?_)), .repeated hfirst hlt⟩
    refine List.mem_filterMap.mpr ⟨d, hd, ?_⟩
    simp [repeatError?, hfirst, hlt]
  · exact ⟨_, Or.inl (Or.inr (mem_loopErrors hd hloop)), .looping hloop⟩
  · -- promotion never fails without errors
    obtain ⟨index, hindex⟩ := hgives.promote
    obtain ⟨e, he⟩ := List.exists_mem_of_ne_nil _ (ClassDecl.promote_eq_error_iff.mp hindex).1
    have ht : (⟨d, .error errors⟩ : Trial) ∈ trials := (h.mem_iff _).mpr ⟨hatt, hgives⟩
    exact ⟨e, Or.inr (List.mem_flatMap.mpr ⟨_, ht, he⟩), .own ht he⟩

theorem verdict_eq_error {errors : List Error} {reports : List ClassReport} {e : Error}
    (he : e ∈ errors) : verdict errors reports = .error errors := by
  cases errors with
  | nil => cases he
  | cons _ _ => rfl

/-- A class that the run does not accept is one that does not succeed by the outcome. When there is such
a class in the module, the run returns errors, and one of them is about that class or about a class of
the module above it. -/
theorem exists_error_concerning (hd : d ∈ m.declared) :
    ((∀ new, ⟨d, .ok new⟩ ∉ m.trials hosts options) ↔
      ∀ new, ¬ m.Succeeds hosts options (m.promote (ClassTable.ofHost hosts) options).module d new) ∧
    ((∀ new, ⟨d, .ok new⟩ ∉ m.trials hosts options) →
      ∃ errors, (m.promote (ClassTable.ofHost hosts) options).result = .error errors ∧
        ∃ c ∈ m.declared,
          (c = d ∨ ∃ n, m.Above hosts d.superclass n ∧ m.declaration? n = some c) ∧
          ∃ e ∈ errors, m.Concerns hosts (m.trials hosts options) c e) := by
  have hiff : (∀ new, ⟨d, .ok new⟩ ∉ m.trials hosts options) ↔
      ∀ new, ¬ m.Succeeds hosts options (m.promote (ClassTable.ofHost hosts) options).module d new :=
    forall_congr' fun new => not_congr succeeds_iff.symm
  refine ⟨hiff, fun h => ?_⟩
  -- some class, the class itself or one above it, has a fault of its own
  obtain ⟨c, hc, hfault, hcd⟩ := exists_faulty hd (not_exists.mpr (hiff.mp h))
  obtain ⟨e, he, hce⟩ := (isSchedule_trials m hosts options).exists_concerns hc hfault
  refine ⟨_, ?_, c, hc, hcd, e, he, hce⟩
  rw [result_promote]
  exact verdict_eq_error he

/-- A class of the host that inherits from a class of the module. -/
def middle : List HostClass :=
  [{ name := "Middle", superclass := some "Base" }]

/-- A class that inherits from `middle`. -/
def derived : Declared where
  position := 0
  decl := { ClassDecl.named "Derived" with superclass := some { name := "Middle" } }

/-- The class `derived`, and a faulty class that it inherits from by way of `middle`. -/
def aroundMiddle : Module where
  statements :=
    [.classDecl derived.decl,
     .classDecl ((ClassDecl.named "Base").withMember (.ctor (.make
        [((Param.named "x").withModifier (.storage .final)).withModifier (.storage .var)] [])))]

theorem exists_error_aroundMiddle : derived ∈ aroundMiddle.declared ∧
    (∀ new, ⟨derived, .ok new⟩ ∉ aroundMiddle.trials middle {}) ∧
    ∃ errors, (aroundMiddle.promote (ClassTable.ofHost middle) {}).result = .error errors ∧
      ∃ c ∈ aroundMiddle.declared,
        (c = derived ∨ ∃ n, aroundMiddle.Above middle derived.superclass n ∧
          aroundMiddle.declaration? n = some c) ∧
        ∃ e ∈ errors, aroundMiddle.Concerns middle (aroundMiddle.trials middle {}) c e := by
  have hd : derived ∈ aroundMiddle.declared := mem_declared_iff.mpr rfl
  have hnot : ∀ new, ⟨derived, .ok new⟩ ∉ aroundMiddle.trials middle {} := by
    intro new hnew
    -- only the class at the other position is tried
    have htrials : (aroundMiddle.trials middle {}).map (·.cls.position) = [1] := by
      cbv
    have hmem := List.mem_map_of_mem (f := (·.cls.position)) hnew
    rw [htrials] at hmem
    simp [derived] at hmem
  exact ⟨hd, hnot, (exists_error_concerning hd).2 hnot⟩

end FieldPromotion.Module
