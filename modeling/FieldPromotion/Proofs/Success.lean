import FieldPromotion.Proofs.Faults
import FieldPromotion.Proofs.Parameters

/-!
# Modules without errors

Every class that is not accepted leaves an error behind. So in a module without errors all classes
are accepted, and then no parameter has a modifier any more.
-/

namespace FieldPromotion.Module

variable {m out : Module} {hosts : List HostClass} {options : Options} {d : Declared}

/-! ## §1 All classes accepted -/

/-- When there are no errors, every class of the module is accepted. -/
theorem Promotes.exists_succeeds {report : Report} (h : m.Promotes hosts options out (.ok report))
    (hd : d ∈ m.declared) : ∃ new, m.Succeeds hosts options out d new := by
  obtain ⟨trials, hsched, hresult⟩ := h.result
  have hnil := (verdict_eq_ok_iff.mp hresult.symm).1
  by_contra hnot
  obtain ⟨c, hc, hfault, -⟩ := exists_faulty hd hnot
  obtain ⟨e, he, -⟩ := hsched.exists_concerns hc hfault
  rw [hnil] at he
  cases he

theorem Promotes.misplaced_eq_nil {report : Report}
    (h : m.Promotes hosts options out (.ok report)) : m.misplaced = [] := by
  obtain ⟨trials, -, hresult⟩ := h.result
  have hnil := (verdict_eq_ok_iff.mp hresult.symm).1
  rw [allErrors] at hnil
  simp only [List.append_eq_nil_iff] at hnil
  exact hnil.1.1.1

/-! ## §2 No modifiers left -/

/-- A statement that is not a class has no modifiers when nothing is misplaced in it. -/
theorem params_of_not_class {s : Stmt} (hs : s.class? = none) (h : s.misplacedTop = []) :
    ∀ p ∈ s.params, p.modifiers = [] := by
  apply s.misplaced_eq_nil_iff.mp
  cases s with
  | classDecl c => cases hs
  | _ => exact h

/-- When promotion succeeds, no parameter of the resulting module has modifiers. -/
theorem modifiers_eq_nil_of_ok {report : Report}
    (h : (m.promote (ClassTable.ofHost hosts) options).result = .ok report) :
    ∀ p ∈ (m.promote (ClassTable.ofHost hosts) options).module.params, p.modifiers = [] := by
  have hout := promotes_promote m hosts options
  rw [h] at hout
  intro p hp
  rw [params, Stmt.paramsAll_eq_flatMap, List.mem_flatMap] at hp
  obtain ⟨s, hs, hp⟩ := hp
  obtain ⟨i, hi⟩ := List.mem_iff_getElem?.mp hs
  cases hc : m.classAt? i with
  | some c =>
    -- an accepted class
    obtain ⟨new, hnew⟩ := hout.exists_succeeds (mem_declared_iff (d := ⟨i, c⟩) |>.mpr hc)
    obtain ⟨index, hindex⟩ := hnew.2.promote
    obtain rfl : .classDecl new.decl = s := by
      simpa [hi] using (hout.accepted _ new hnew).symm
    apply ClassDecl.params_of_settled _ _ p hp
    · exact ClassDecl.settled_of_promote hindex
    · exact ClassDecl.misplacedTop_promote hindex hnew.1.placed
  | none =>
    -- a statement that is kept
    have hkept := hout.kept i fun d new hnew hpos => by
      rw [← hpos, hnew.1.classAt?] at hc
      cases hc
    rw [hi] at hkept
    apply params_of_not_class (s := s) _ _ p hp
    · simpa [Module.classAt?, ← hkept] using hc
    · exact List.flatMap_eq_nil_iff.mp hout.misplaced_eq_nil s (List.mem_of_getElem? hkept.symm)

/-- A class that stands before its superclass, which is below a class of the host, and a function
with a class inside. -/
def shapes : Module where
  statements :=
    [.classDecl { ClassDecl.named "Circle" with
        superclass := some { name := "Shape" }
        members := [.ctor (.make
          [(Param.named "radius").withModifier (.storage .var), .named "scale"] [])] },
     .classDecl { ClassDecl.named "Shape" with
        superclass := some { name := "Item" }
        members := [.ctor (.make [(Param.named "label").withModifier (.storage .final)] [])] },
     .funDecl (.make "area" [.named "shape"]
        [.classDecl ((ClassDecl.named "Local").withMember (.ctor (.make [.named "x"] [])))])]

theorem modifiers_shapes :
    (∃ report, (shapes.promote (ClassTable.ofHost [{ name := "Item" }]) {}).result = .ok report) ∧
      ∀ p ∈ (shapes.promote (ClassTable.ofHost [{ name := "Item" }]) {}).module.params,
        p.modifiers = [] := by
  have h : (shapes.promote (ClassTable.ofHost [{ name := "Item" }]) {}).result =
      .ok { classes := [{ cls := "Shape", fields := [⟨"label", .final, .priv, {}⟩] },
        { cls := "Circle", fields := [⟨"radius", .var, .priv, {}⟩] }] } := by
    cbv
  exact ⟨⟨_, h⟩, modifiers_eq_nil_of_ok h⟩

end FieldPromotion.Module
