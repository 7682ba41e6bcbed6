import FieldPromotion.Proofs.Classification
import FieldPromotion.Proofs.Clashes
import FieldPromotion.Proofs.Placement
import FieldPromotion.Proofs.Run

/-!
# Where errors come from

The checks of a run report errors of different kinds, and the code of an error tells which check it comes
from. Only modifiers out of place and modifiers that do not fit together may share a code.
-/

namespace FieldPromotion

/-! ## §1 The errors of a class -/

/-- Second constructors have one code. -/
theorem ClassDecl.code_of_mem_extraCtors {c : ClassDecl} {e : Error} (h : e ∈ c.extraCtors) :
    e.code = "E4007" := by
  unfold ClassDecl.extraCtors at h
  split at h
  · cases h
  · obtain ⟨k, -, rfl⟩ := List.mem_map.mp h
    rfl

/-- A parameter without role is static, has modifiers that contradict each other, or has some without
a storage. -/
theorem Param.code_of_role {p : Param} {e : Error} (h : p.role = .error e) :
    e.code = "E4002" ∨ e.code = "E4004" ∨ e.code = "E4005" := by
  cases Param.role_eq_iff_classified.mp h with
  | conflict _ => exact Or.inr (Or.inl rfl)
  | stray _ _ _ => exact Or.inr (Or.inr rfl)
  | static _ _ _ _ => exact Or.inl rfl

/-- Clashes have one code. -/
theorem ClashAt.code {cls : String} {index : FieldIndex} {ps : List Param} {roles : List Role}
    {i : Nat} {e : Error} (h : ClashAt cls index ps roles i e) : e.code = "E4003" := by
  cases h with
  | inSight _ _ => rfl
  | repeated _ _ _ _ _ _ => rfl

/-- A class without further constructors has one constructor at most. -/
theorem ClassDecl.ctors_eq_of_extraCtors {c : ClassDecl} {ctor : CtorDecl} {rest : List CtorDecl}
    (h : c.extraCtors = []) (hctors : c.ctors = ctor :: rest) : c.ctors = [ctor] := by
  unfold ClassDecl.extraCtors at h
  rw [hctors] at h
  rw [hctors, List.map_eq_nil_iff.mp h]

/-- The errors of a class, by the check that they come from: further constructors, modifiers that do not
fit together, and names that are taken. A check is made only when the ones before it found nothing. -/
theorem ClassDecl.mem_errors_cases {c : ClassDecl} {index : FieldIndex} {options : Options}
    {errors : List Error} {e : Error} (h : c.promote index options = .error errors)
    (he : e ∈ errors) :
    e ∈ c.extraCtors ∨ ∃ ctor, c.ctors = [ctor] ∧ ((∃ p ∈ ctor.params, p.role = .error e) ∨
      ∃ roles, Param.roles ctor.params = .ok roles ∧
        ∃ i, ClashAt c.name.name index ctor.params roles i e) := by
  -- the errors of a class are all of one kind: second constructors, roles, or clashes
  obtain ⟨-, hextra | ⟨hnil, ctor, rest, hctors, hfault⟩⟩ := ClassDecl.promote_eq_error_iff.mp h
  · rw [hextra]
    exact Or.inl he
  · refine Or.inr ⟨ctor, ClassDecl.ctors_eq_of_extraCtors hnil hctors, ?_⟩
    rcases hfault with hroles | ⟨roles, hroles, hclash⟩
    · obtain ⟨-, rfl⟩ := Param.roles_eq_error_iff_filterMap.mp hroles
      obtain ⟨p, hp, hrole⟩ := List.mem_filterMap.mp he
      exact Or.inl ⟨p, hp, Param.roleError?_eq_some_iff.mp hrole⟩
    · rw [← hclash] at he
      exact Or.inr ⟨roles, hroles, Param.mem_clashes_iff.mp he⟩

/-! ## §2 The errors of a module -/

/-- A modifier in the wrong place has one of two codes. -/
theorem ParamSite.code_of_error? {site : ParamSite} {e : Error} (h : site.error? = some e) :
    e.code = "E4001" ∨ e.code = "E4005" := by
  unfold ParamSite.error? at h
  split at h
  · cases h
  · split at h
    · cases h
    · split at h
      · cases h
        exact Or.inl rfl
      · cases h
        exact Or.inr rfl

/-- The errors of an attempt are those it fails with. -/
theorem Trial.mem_errors_iff {t : Trial} {e : Error} :
    e ∈ t.errors ↔ ∃ errors, t.result = .error errors ∧ e ∈ errors := by
  unfold Trial.errors
  cases t.result with
  | ok new => simp
  | error errors => simp

/-- The errors of an outcome, none if nothing was wrong. -/
def Outcome.errors (o : Outcome) : List Error :=
  match o.result with
  | .ok _ => []
  | .error errors => errors

namespace Module

variable {m : Module} {hosts : List HostClass} {options : Options} {e : Error}

/-- The errors of a promotion, by the outcome of its attempts. -/
theorem errors_promote (m : Module) (hosts : List HostClass) (options : Options) :
    (m.promote (ClassTable.ofHost hosts) options).errors =
      m.allErrors hosts (m.trials hosts options) := by
  rw [Outcome.errors, result_promote]
  generalize m.allErrors hosts (m.trials hosts options) = errors
  cases errors <;> rfl

theorem code_of_mem_misplaced (h : e ∈ m.misplaced) : e.code = "E4001" ∨ e.code = "E4005" := by
  obtain ⟨s, -, hs⟩ := List.mem_flatMap.mp h
  rw [Stmt.misplacedTop_eq_sites] at hs
  obtain ⟨site, -, hsite⟩ := List.mem_filterMap.mp hs
  exact site.code_of_error? hsite

theorem code_of_mem_repeatErrors (h : e ∈ m.repeatErrors) : e.code = "E4008" := by
  obtain ⟨d, -, hd⟩ := List.mem_filterMap.mp h
  obtain ⟨first, -, hfirst⟩ := Option.bind_eq_some_iff.mp hd
  split at hfirst
  · cases hfirst
    rfl
  · cases hfirst

/-- Loops have one code, on the loop and below it. -/
theorem code_of_mem_loopErrors (h : e ∈ m.loopErrors hosts) : e.code = "E4006" := by
  obtain ⟨d, -, rfl⟩ := List.mem_map.mp h
  rfl

/-- No class that is tried is found to be a repeat or to be on a cycle. -/
theorem code_of_mem_trials (h : e ∈ (m.trials hosts options).flatMap Trial.errors) :
    e.code ∈ ["E4002", "E4003", "E4004", "E4005", "E4007"] := by
  obtain ⟨t, ht, he⟩ := List.mem_flatMap.mp h
  obtain ⟨errors, hresult, he⟩ := Trial.mem_errors_iff.mp he
  obtain ⟨index, hindex⟩ := (mem_trials_iff_attempted.mp ht).2.promote
  rw [hresult] at hindex
  rcases ClassDecl.mem_errors_cases hindex he with hextra | ⟨ctor, -, ⟨p, -, hrole⟩ | ⟨_, -, _, hclash⟩⟩
  · simp [ClassDecl.code_of_mem_extraCtors hextra]
  · rcases Param.code_of_role hrole with hcode | hcode | hcode <;> simp [hcode]
  · simp [hclash.code]

end Module

end FieldPromotion
