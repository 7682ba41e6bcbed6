import FieldPromotion.Proofs.ClassPromotion

/-!
# Modules with the same class heads

The hierarchy of a module depends only on where its classes stand, what they are called and what
they name as superclass. Promotion keeps all of this. So names mean the same before and after it,
and the same repeats and loops are reported.
-/

namespace FieldPromotion.Module

variable {m out : Module} {hosts : List HostClass} {d : Declared} {ns : List String} {n : String}
  {s : Option String} {i : Nat} {c : ClassDecl}

/-! ## §1 Heads -/

/-- `out` has as many statements as `m`, and has a class exactly where `m` has one, with the same
name and superclass. -/
structure SameHeads (m out : Module) : Prop where
  length : out.statements.length = m.statements.length
  heads : ∀ i, (out.classAt? i).map (fun c => (c.name, c.superclass)) =
    (m.classAt? i).map fun c => (c.name, c.superclass)

theorem SameHeads.symm (h : m.SameHeads out) : out.SameHeads m :=
  ⟨h.length.symm, fun i => (h.heads i).symm⟩

/-- A class is found in the other module at the same position and with the same head. -/
theorem SameHeads.classAt? (h : m.SameHeads out) (hc : m.classAt? i = some c) :
    ∃ c', out.classAt? i = some c' ∧ c'.name = c.name ∧ c'.superclass = c.superclass := by
  have hi := h.heads i
  rw [hc, Option.map_some, Option.map_eq_some_iff] at hi
  obtain ⟨c', hc', heq⟩ := hi
  simp only [Prod.mk.injEq] at heq
  exact ⟨c', hc', heq⟩

theorem SameHeads.classAt?_eq_none (h : m.SameHeads out) (hc : m.classAt? i = none) :
    out.classAt? i = none := by
  have hi := h.heads i
  rw [hc, Option.map_none, Option.map_eq_none_iff] at hi
  exact hi

/-- Heads stay the same when each statement is kept or is a class that is promoted. -/
theorem SameHeads.of_promoted (h : ∀ i, out.statements[i]? = m.statements[i]? ∨
    ∃ c index options new, m.classAt? i = some c ∧ ClassDecl.promote c index options = .ok new ∧
      out.statements[i]? = some (.classDecl new.decl)) : m.SameHeads out where
  length := by
    -- the lengths agree if there is a statement at the same positions
    have hunit : out.statements.map (fun _ => ()) = m.statements.map fun _ => () := by
      refine List.ext_getElem? fun i => ?_
      rw [List.getElem?_map, List.getElem?_map]
      rcases h i with hkept | ⟨c, index, options, new, hc, -, hout⟩
      · rw [hkept]
      · obtain ⟨s, hs, -⟩ := Option.bind_eq_some_iff.mp hc
        rw [hout, hs]
        rfl
    simpa using congrArg List.length hunit
  heads := by
    intro i
    rcases h i with hkept | ⟨c, index, options, new, hc, hnew, hout⟩
    · rw [Module.classAt?, Module.classAt?, hkept]
    · obtain ⟨hname, hsup, -⟩ := ClassDecl.promote_head hnew
      have hc' : out.classAt? i = some new.decl := by
        rw [Module.classAt?, hout]
        rfl
      rw [hc', hc, Option.map_some, Option.map_some, hname, hsup]

/-! ## §2 What names refer to -/

/-- A name has its first declaration at the same position. -/
theorem SameHeads.declaration? (h : m.SameHeads out) (hd : m.declaration? n = some d) :
    ∃ c, out.classAt? d.position = some c ∧ c.name = d.decl.name ∧
      c.superclass = d.decl.superclass ∧ out.declaration? n = some ⟨d.position, c⟩ := by
  obtain ⟨hat, hname, hmin⟩ := declaration?_eq_some_iff.mp hd
  obtain ⟨c, hc, hcn, hcs⟩ := h.classAt? hat
  refine ⟨c, hc, hcn, hcs, declaration?_eq_some_iff.mpr ⟨hc, ?_, ?_⟩⟩
  · rw [← hname, Declared.name, Declared.name, hcn]
  · intro i x hi hx
    obtain ⟨y, hy, hyn, -⟩ := h.symm.classAt? hx
    rw [← hyn]
    exact hmin i y hi hy

theorem SameHeads.declaration?_eq_none (h : m.SameHeads out) (hd : m.declaration? n = none) :
    out.declaration? n = none := by
  rw [declaration?_eq_none_iff] at *
  intro i x hx
  obtain ⟨y, hy, hyn, -⟩ := h.symm.classAt? hx
  rw [← hyn]
  exact hd i y hy

/-- A name refers to a class with the same superclass. -/
theorem SameHeads.meaning {w : Meaning} (h : m.SameHeads out) (hw : m.meaning hosts n = some w) :
    ∃ w', out.meaning hosts n = some w' ∧ w'.superclass = w.superclass := by
  cases hd : m.declaration? n with
  | some d =>
    rw [meaning_own hosts hd, Option.some.injEq] at hw
    subst hw
    obtain ⟨c, -, -, hcs, hout⟩ := h.declaration? hd
    exact ⟨_, meaning_own hosts hout, congrArg (Option.map Ident.name) hcs⟩
  | none =>
    refine ⟨w, ?_, rfl⟩
    rw [← hw, Module.meaning, Module.meaning, hd, h.declaration?_eq_none hd]

theorem SameHeads.sameSuperclasses (h : m.SameHeads out) (hosts : List HostClass)
    (s : Option String) : m.SameSuperclasses out hosts s := by
  intro n _
  cases hw : m.meaning hosts n with
  | some w =>
    obtain ⟨w', hw', hsup⟩ := h.meaning hw
    rw [hw', Option.map_some, Option.map_some, hsup]
  | none =>
    cases hw' : out.meaning hosts n with
    | none => rfl
    | some w' =>
      obtain ⟨w, hw'', -⟩ := h.symm.meaning hw'
      rw [hw] at hw''
      cases hw''

theorem SameHeads.chain (h : m.SameHeads out) (hns : m.Chain hosts s ns) :
    out.Chain hosts s ns :=
  (h.sameSuperclasses hosts s).chain hns

/-! ## §3 Repeats and loops -/

section Errors

variable {c' : ClassDecl} (h : m.SameHeads out) (hc : m.classAt? i = some c)
  (hc' : out.classAt? i = some c')
include h hc hc'

/-- Classes at one position have the same head. -/
theorem SameHeads.head_eq : c'.name = c.name ∧ c'.superclass = c.superclass := by
  obtain ⟨x, hx, hhead⟩ := h.classAt? hc
  obtain rfl : c' = x := Option.some.inj (hc'.symm.trans hx)
  exact hhead

theorem SameHeads.declaration?_iff :
    out.declaration? c'.name.name = some ⟨i, c'⟩ ↔ m.declaration? c.name.name = some ⟨i, c⟩ := by
  have hname := (h.head_eq hc hc').1
  constructor
  · intro hd
    obtain ⟨x, hx, -, -, hm⟩ := h.symm.declaration? hd
    obtain rfl : c = x := Option.some.inj (hc.symm.trans hx)
    rw [← hname]
    exact hm
  · intro hd
    obtain ⟨x, hx, -, -, hm⟩ := h.declaration? hd
    obtain rfl : c' = x := Option.some.inj (hc'.symm.trans hx)
    rw [hname]
    exact hm

theorem SameHeads.repeatError? : out.repeatError? ⟨i, c'⟩ = m.repeatError? ⟨i, c⟩ := by
  have hname := (h.head_eq hc hc').1
  simp only [Module.repeatError?, Declared.name, hname]
  cases hd : m.declaration? c.name.name with
  | none => rw [h.declaration?_eq_none hd]
  | some first =>
    obtain ⟨x, -, hx, -, hfirst⟩ := h.declaration? hd
    rw [hfirst, Option.bind_some, Option.bind_some, hx]

theorem SameHeads.onCycle : m.OnCycle hosts ⟨i, c⟩ → out.OnCycle hosts ⟨i, c'⟩ := by
  obtain ⟨hname, hsup⟩ := h.head_eq hc hc'
  intro hloop
  refine (h.sameSuperclasses hosts _).onCycle ((h.declaration?_iff hc hc').mpr hloop.1) ?_ ?_ hloop
  · exact congrArg Ident.name hname
  · exact congrArg (Option.map Ident.name) hsup

theorem SameHeads.leadsToHostCycle :
    m.LeadsToHostCycle hosts ⟨i, c⟩ → out.LeadsToHostCycle hosts ⟨i, c'⟩ := by
  obtain ⟨-, hsup⟩ := h.head_eq hc hc'
  apply (h.sameSuperclasses hosts _).leadsToHostCycle
  · intro n hn
    exact h.declaration?_eq_none hn
  · exact congrArg (Option.map Ident.name) hsup

end Errors

/-- What is collected from the classes of a module is the same when it is the same at each
position. -/
theorem SameHeads.filterMap_declared (h : m.SameHeads out) {β : Type} {f g : Declared → Option β}
    (hfg : ∀ i c c', m.classAt? i = some c → out.classAt? i = some c' → f ⟨i, c'⟩ = g ⟨i, c⟩) :
    out.declared.filterMap f = m.declared.filterMap g := by
  -- position by position both lists have the same to offer, before the gaps are closed
  have hmap : out.statements.zipIdx.map (fun s => (s.1.class?.map (Declared.mk s.2)).bind f) =
      m.statements.zipIdx.map fun s => (s.1.class?.map (Declared.mk s.2)).bind g := by
    refine List.ext_getElem (by simp [h.length]) fun i hi hi' => ?_
    simp only [List.length_map, List.length_zipIdx] at hi hi'
    simp only [List.getElem_map, List.getElem_zipIdx, Nat.zero_add]
    have hm : m.classAt? i = (m.statements[i]).class? := by
      rw [Module.classAt?, List.getElem?_eq_getElem hi', Option.bind_some]
    have ho : out.classAt? i = (out.statements[i]).class? := by
      rw [Module.classAt?, List.getElem?_eq_getElem hi, Option.bind_some]
    rw [← hm, ← ho]
    cases hc : m.classAt? i with
    | none =>
      rw [h.classAt?_eq_none hc]
      rfl
    | some c =>
      obtain ⟨c', hc', -⟩ := h.classAt? hc
      rw [hc']
      exact hfg i c c' hc hc'
  have hcollect := congrArg (List.filterMap id) hmap
  rw [List.filterMap_map, List.filterMap_map] at hcollect
  unfold declared
  rw [List.filterMap_filterMap, List.filterMap_filterMap]
  exact hcollect

theorem SameHeads.repeatErrors_eq (h : m.SameHeads out) : out.repeatErrors = m.repeatErrors :=
  h.filterMap_declared fun _ _ _ hc hc' => h.repeatError? hc hc'

open Classical in
/-- Errors of the classes with some property, given by their names. -/
theorem SameHeads.map_filter_declared (h : m.SameHeads out) {P Q : Declared → Prop}
    (hPQ : ∀ i c c', m.classAt? i = some c → out.classAt? i = some c' →
      (P ⟨i, c'⟩ ↔ Q ⟨i, c⟩)) :
    (out.declared.filter (P ·)).map (fun d => Error.cyclicInheritance d.name d.decl.name.span) =
      (m.declared.filter (Q ·)).map fun d => .cyclicInheritance d.name d.decl.name.span := by
  rw [← List.filterMap_eq_filter, ← List.filterMap_eq_filter, List.map_filterMap,
    List.map_filterMap]
  apply h.filterMap_declared
  intro i c c' hc hc'
  obtain ⟨hname, -⟩ := h.head_eq hc hc'
  simp only [Option.guard, hPQ i c c' hc hc', Declared.name]
  by_cases hQ : Q ⟨i, c⟩ <;> simp [hQ, hname]

theorem SameHeads.loopErrors_eq (h : m.SameHeads out) (hosts : List HostClass) :
    out.loopErrors hosts = m.loopErrors hosts := by
  rw [loopErrors, loopErrors, List.map_append, List.map_append]
  congr 1
  · apply h.map_filter_declared
    intro i c c' hc hc'
    exact ⟨h.symm.onCycle hc' hc, h.onCycle hc hc'⟩
  · apply h.map_filter_declared
    intro i c c' hc hc'
    exact ⟨h.symm.leadsToHostCycle hc' hc, h.leadsToHostCycle hc hc'⟩

end FieldPromotion.Module
