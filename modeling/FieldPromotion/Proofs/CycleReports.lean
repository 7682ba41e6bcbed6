import FieldPromotion.Proofs.ErrorCodes
import Mathlib.Logic.Relation

/-!
# Reported superclass cycles

Which classes a run reports because their superclasses form a cycle. Inheritance is a relation between
classes here, those of the module and those of the host: one class extends another when its superclass
name refers to it. A class of the module is reported when it inherits from itself, and also when it
leads into a cycle with nothing but classes of the host above it; any other class that leads into a
cycle has a class of the module above it that does so too.
-/

namespace FieldPromotion

/-! ## §1 Inheritance between classes -/

namespace Module

variable {m : Module} {hosts : List HostClass} {w v : Meaning} {d : Declared} {s : Option String}
  {n : String}

/-- The superclass name of `w` refers to `v`. -/
def Extends (m : Module) (hosts : List HostClass) (w v : Meaning) : Prop :=
  w.superclass.bind (m.meaning hosts) = some v

/-- `v` is met when following superclass names upwards from `w`, one or more times. -/
def Inherits (m : Module) (hosts : List HostClass) : Meaning → Meaning → Prop :=
  Relation.TransGen (m.Extends hosts)

theorem extends_iff : m.Extends hosts w v ↔
    ∃ n, w.superclass = some n ∧ m.meaning hosts n = some v :=
  Option.bind_eq_some_iff

theorem Above.inherits (h : m.Above hosts s n) (hw : w.superclass = s)
    (hv : m.meaning hosts n = some v) : m.Inherits hosts w v := by
  induction h generalizing w with
  | here _ => exact .single (extends_iff.mpr ⟨_, hw, hv⟩)
  | up hx _ ih => exact .head (extends_iff.mpr ⟨_, hw, hx⟩) (ih rfl hv)

/-- A class inherits from the classes that its superclass names lead to. -/
theorem inherits_iff_above : m.Inherits hosts w v ↔
    ∃ n, m.Above hosts w.superclass n ∧ m.meaning hosts n = some v := by
  constructor
  · intro h
    induction h with
    | single hwv =>
      obtain ⟨n, hsup, hn⟩ := extends_iff.mp hwv
      rw [hsup]
      exact ⟨n, .here hn, hn⟩
    | tail _ hbc ih =>
      -- one name further up
      obtain ⟨n, habove, hn⟩ := ih
      obtain ⟨k, hsup, hk⟩ := extends_iff.mp hbc
      refine ⟨k, habove.trans hn ?_, hk⟩
      rw [hsup]
      exact .here hk
  · intro h
    obtain ⟨n, habove, hn⟩ := h
    exact habove.inherits rfl hn

/-- The classes on a loop inherit from themselves. -/
theorem onCycle_iff_inherits : m.OnCycle hosts d ↔ m.Inherits hosts (.own d) (.own d) := by
  rw [inherits_iff_above]
  constructor
  · intro h
    exact ⟨d.name, h.2, meaning_own hosts h.1⟩
  · intro h
    obtain ⟨n, habove, hn⟩ := h
    have hfirst := declaration?_of_meaning_own hn
    obtain rfl := name_of_declaration? hfirst
    exact ⟨hfirst, habove⟩

theorem leadsToHostCycle_iff_inherits : m.LeadsToHostCycle hosts d ↔
    (∃ v, m.Inherits hosts (.own d) v ∧ m.Inherits hosts v v) ∧
      ∀ v, m.Inherits hosts (.own d) v → ∃ x, v = .host x := by
  unfold LeadsToHostCycle
  apply and_congr
  · constructor
    · intro h
      obtain ⟨n, w, habove, hw, hloop⟩ := h
      exact ⟨w, habove.inherits rfl hw, hloop.inherits rfl hw⟩
    · intro h
      obtain ⟨v, hv, hself⟩ := h
      obtain ⟨n, habove, hn⟩ := inherits_iff_above.mp hv
      obtain ⟨k, hloop, hk⟩ := inherits_iff_above.mp hself
      -- a class has one name
      obtain rfl : k = n := (name_of_meaning hk).symm.trans (name_of_meaning hn)
      exact ⟨k, v, habove, hk, hloop⟩
  · constructor
    · intro h v hv
      obtain ⟨n, habove, hn⟩ := inherits_iff_above.mp hv
      exact (declaration?_eq_none_iff_host hn).mp (h n habove)
    · intro h n habove
      obtain ⟨v, hv, -⟩ := above_iff_climb.mp habove
      exact (declaration?_eq_none_iff_host hv).mpr (h v (habove.inherits rfl hv))

/-- The superclass chain of a class reaches one that extends nothing that is known. -/
def ReachesRoot (m : Module) (hosts : List HostClass) (w : Meaning) : Prop :=
  ∃ root, (root = w ∨ m.Inherits hosts w root) ∧ ∀ v, ¬ m.Extends hosts root v

/-- A class whose chain reaches a root inherits from no class on a cycle. -/
theorem ReachesRoot.not_inherits (h : m.ReachesRoot hosts w) (hv : m.Inherits hosts w v) :
    ¬ m.Inherits hosts v v := by
  intro hself
  obtain ⟨root, hreach, hroot⟩ := h
  -- a root has no superclass that refers to a class, so its chain is empty
  have hend : m.Chain hosts root.superclass [] := by
    apply Chain.root
    rw [Option.eq_none_iff_forall_ne_some]
    exact hroot
  have hchain : ∃ ns, m.Chain hosts w.superclass ns := by
    rcases hreach with rfl | hreach
    · exact ⟨[], hend⟩
    · obtain ⟨n, habove, hn⟩ := inherits_iff_above.mp hreach
      exact habove.exists_chain hn hend
  obtain ⟨ns, hns⟩ := hchain
  obtain ⟨n, habove, hn⟩ := inherits_iff_above.mp hv
  -- a class with a chain has no loop above it
  obtain ⟨k, hloop, hk⟩ := inherits_iff_above.mp hself
  obtain rfl : k = n := (name_of_meaning hk).symm.trans (name_of_meaning hn)
  exact hns.not_cycle habove hn hloop

end Module

/-! ## §2 Errors that report a cycle -/

/-- The error of a class whose superclass chain runs into a cycle. -/
def Error.isCyclicInheritance : Error → Bool
  | .cyclicInheritance _ _ => true
  | _ => false

/-- No error with another code reports a cycle. -/
theorem filter_isCyclicInheritance_eq_nil {errors : List Error} (h : ∀ e ∈ errors, e.code ≠ "E4006") :
    errors.filter Error.isCyclicInheritance = [] := by
  apply List.filter_eq_nil_iff.mpr
  intro e he hcyclic
  cases e with
  | cyclicInheritance cls s => exact h _ he rfl
  | _ => cases hcyclic

namespace Module

variable {m : Module} {hosts : List HostClass} {d : Declared}

/-- The errors that report a cycle are those that follow from the hierarchy. -/
theorem filter_errors_promote (m : Module) (hosts : List HostClass) (options : Options) :
    (m.promote (ClassTable.ofHost hosts) options).errors.filter Error.isCyclicInheritance =
      m.loopErrors hosts := by
  have hmisplaced : m.misplaced.filter Error.isCyclicInheritance = [] := by
    apply filter_isCyclicInheritance_eq_nil
    intro e he
    rcases code_of_mem_misplaced he with h | h <;> simp [h]
  have hrepeat : m.repeatErrors.filter Error.isCyclicInheritance = [] := by
    apply filter_isCyclicInheritance_eq_nil
    intro e he
    simp [code_of_mem_repeatErrors he]
  have htrials : ((m.trials hosts options).flatMap Trial.errors).filter
      Error.isCyclicInheritance = [] := by
    apply filter_isCyclicInheritance_eq_nil
    intro e he hcyclic
    have hmem := code_of_mem_trials he
    rw [hcyclic] at hmem
    simp at hmem
  have hloop : (m.loopErrors hosts).filter Error.isCyclicInheritance = m.loopErrors hosts := by
    apply List.filter_eq_self.mpr
    intro e he
    obtain ⟨d, -, rfl⟩ := List.mem_map.mp he
    rfl
  rw [errors_promote, allErrors, List.filter_append, List.filter_append, List.filter_append,
    hmisplaced, hrepeat, htrials, hloop, List.append_nil]
  rfl

/-! ## §3 Reported classes -/

/-- `m.ReportsCycle hosts d`: the class `d` is on a cycle of superclasses, or it is on none but leads
into one and inherits only from classes of the host. -/
def ReportsCycle (m : Module) (hosts : List HostClass) (d : Declared) : Prop :=
  m.Inherits hosts (.own d) (.own d) ∨
    ¬ m.Inherits hosts (.own d) (.own d) ∧
      (∃ v, m.Inherits hosts (.own d) v ∧ m.Inherits hosts v v) ∧
      ∀ v, m.Inherits hosts (.own d) v → ∃ x, v = .host x

theorem reportsCycle_iff :
    m.ReportsCycle hosts d ↔ m.OnCycle hosts d ∨ m.LeadsToHostCycle hosts d := by
  rw [ReportsCycle, ← leadsToHostCycle_iff_inherits, ← onCycle_iff_inherits]
  constructor
  · intro h
    rcases h with h | h
    · exact Or.inl h
    · exact Or.inr h.2
  · intro h
    rcases h with h | h
    · exact Or.inl h
    · exact Or.inr ⟨h.not_onCycle, h⟩

theorem ReportsCycle.not_reachesRoot (h : m.ReportsCycle hosts d) :
    ¬ m.ReachesRoot hosts (.own d) := by
  intro hroot
  rcases h with hself | ⟨-, ⟨v, hv, hself⟩, -⟩
  · exact hroot.not_inherits hself hself
  · exact hroot.not_inherits hv hself

/-- A run reports a cycle for the classes of the module that are on one or lead from the module into one
of the host, once for each such class, and never for a class whose superclass chain reaches a root. -/
theorem exists_reported (m : Module) (hosts : List HostClass) (options : Options) :
    ∃ reported : List Declared, reported.Nodup ∧
      (∀ d, d ∈ reported ↔ d ∈ m.declared ∧ m.ReportsCycle hosts d) ∧
      ((m.promote (ClassTable.ofHost hosts) options).errors.filter Error.isCyclicInheritance =
        reported.map fun d => .cyclicInheritance d.name d.decl.name.span) ∧
      ∀ d ∈ reported, ¬ m.ReachesRoot hosts (.own d) := by
  classical
  refine ⟨m.declared.filter (m.OnCycle hosts ·) ++ m.declared.filter (m.LeadsToHostCycle hosts ·),
    ?_, ?_, filter_errors_promote m hosts options, ?_⟩
  · -- a class that leads into a cycle of the host is on none
    rw [List.nodup_append]
    refine ⟨m.nodup_declared.filter _, m.nodup_declared.filter _, ?_⟩
    intro d hd e he heq
    subst heq
    simp only [List.mem_filter, decide_eq_true_iff] at hd he
    exact he.2.not_onCycle hd.2
  · intro d
    simp only [List.mem_append, List.mem_filter, decide_eq_true_iff, reportsCycle_iff]
    rw [← and_or_left]
  · intro d hd
    apply ReportsCycle.not_reachesRoot
    simp only [List.mem_append, List.mem_filter, decide_eq_true_iff] at hd
    rw [reportsCycle_iff]
    exact hd.imp And.right And.right

end Module

end FieldPromotion
