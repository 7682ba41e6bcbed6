import FieldPromotion.Proofs.Run
import FieldPromotion.Tree.Build
import Mathlib

/-!
# Edits elsewhere in a module

What becomes of a class depends on the class itself and on the classes above it. Any other statement of
the module may be deleted, and it may be replaced by any statement that does not declare one of the
names by which these classes are found. However many errors the edit adds or removes, the class is
promoted as before.
-/

namespace FieldPromotion

/-! ## §1 One statement is edited -/

/-- The module with `s` in place of the statement at `i`, or without that statement if there is no
`s`. -/
def Module.edit (m : Module) (i : Nat) (s : Option Stmt) : Module :=
  { m with statements := m.statements.take i ++ s.toList ++ m.statements.drop (i + 1) }

/-- Where the statement at `j` stands after the one at `i` has been edited. -/
def positionAfter (i : Nat) (s : Option Stmt) (j : Nat) : Nat :=
  if i < j ∧ s.isNone then j - 1 else j

/-- A class at its position after the edit. -/
def Declared.moved (d : Declared) (i : Nat) (s : Option Stmt) : Declared :=
  { d with position := positionAfter i s d.position }

namespace Module

variable {m : Module} {hosts : List HostClass} {options : Options} {d a : Declared} {i j k : Nat}
  {s : Option Stmt} {x : Stmt} {n t : String} {c : ClassDecl} {r : Except (List Error) Promoted}

/-- The statements before the edited one, what has been put in its place, and the statements after
it. -/
theorem getElem?_edit_eq (hi : i < m.statements.length) (s : Option Stmt) (k : Nat) :
    (m.edit i s).statements[k]? =
      if k < i then m.statements[k]?
      else match s with
        | none => m.statements[k + 1]?
        | some x => if k = i then some x else m.statements[k]? := by
  have hlen : (m.statements.take i).length = i := List.length_take_of_le hi.le
  rw [edit, List.append_assoc]
  -- before the edit nothing has moved
  split
  · rw [List.getElem?_append_left (by omega), List.getElem?_take_of_lt (by omega)]
  · rw [List.getElem?_append_right (by omega), hlen]
    cases s with
    | none =>
      simp only [Option.toList_none, List.nil_append, List.getElem?_drop]
      congr 1
      omega
    | some x =>
      simp only [Option.toList_some, List.singleton_append]
      split
      · simp [*]
      · rw [List.getElem?_cons, if_neg (by omega), List.getElem?_drop]
        congr 1
        omega

/-- Every other statement is still there. -/
theorem getElem?_edit (hi : i < m.statements.length) (hj : j ≠ i) :
    (m.edit i s).statements[positionAfter i s j]? = m.statements[j]? := by
  rw [getElem?_edit_eq hi, positionAfter]
  cases s with
  | none =>
    by_cases hlt : i < j
    · have hnot : ¬ j - 1 < i := by omega
      simp only [hlt, Option.isNone_none, and_self, if_true, if_neg hnot]
      rw [Nat.sub_add_cancel (by omega)]
    · have hji : j < i := by omega
      simp [hlt, hji]
  | some x => simp [hj]

/-- Every statement after the edit was put in by it or was there before. -/
theorem of_getElem?_edit (hi : i < m.statements.length)
    (hx : (m.edit i s).statements[k]? = some x) :
    s = some x ∨ ∃ j, j ≠ i ∧ positionAfter i s j = k ∧ m.statements[j]? = some x := by
  rw [getElem?_edit_eq hi] at hx
  split at hx
  · exact Or.inr ⟨k, by omega, by rw [positionAfter, if_neg (by omega)], hx⟩
  · cases s with
    | none => exact Or.inr ⟨k + 1, by omega, by simp [positionAfter]; omega, hx⟩
    | some y =>
      by_cases hk : k = i
      · simp only [hk, if_true] at hx
        exact Or.inl hx
      · simp only [hk, if_false] at hx
        exact Or.inr ⟨k, hk, by simp [positionAfter], hx⟩

/-- The edit keeps the order of the other statements. -/
theorem lt_of_positionAfter_lt (h : positionAfter i s j < positionAfter i s k) : j < k := by
  cases s with
  | none =>
    simp only [positionAfter, Option.isNone_none, and_true] at h
    split at h <;> split at h <;> omega
  | some x => simpa [positionAfter] using h

/-- When a name is neither declared by the edited statement nor by what is put in its place, it is
declared by the same class after the edit. -/
theorem declaration?_edit (hi : i < m.statements.length)
    (hold : ∀ a, m.declaration? n = some a → a.position ≠ i)
    (hnew : ∀ c, s.bind Stmt.class? = some c → c.name.name ≠ n) :
    (m.edit i s).declaration? n = (m.declaration? n).map (·.moved i s) := by
  -- a class of that name has come from elsewhere in `m`
  have hback : ∀ k c, (m.edit i s).classAt? k = some c → c.name.name = n →
      ∃ j, j ≠ i ∧ positionAfter i s j = k ∧ m.classAt? j = some c := by
    intro k c hc hn
    rcases of_getElem?_edit hi (statement_of_classAt? hc) with hs | ⟨j, hj, hk, hx⟩
    · exact absurd hn (hnew c (by rw [hs]; rfl))
    · exact ⟨j, hj, hk, by rw [classAt?, hx]; rfl⟩
  cases ha : m.declaration? n with
  | none =>
    rw [Option.map_none, declaration?_eq_none_iff]
    intro k c hc hn
    obtain ⟨j, -, -, hj⟩ := hback k c hc hn
    exact declaration?_eq_none_iff.mp ha j c hj hn
  | some a =>
    obtain ⟨hat, hname, hfirst⟩ := declaration?_eq_some_iff.mp ha
    rw [Option.map_some, declaration?_eq_some_iff]
    refine ⟨?_, hname, ?_⟩
    · show ((m.edit i s).statements[positionAfter i s a.position]?).bind Stmt.class? = some a.decl
      rw [getElem?_edit hi (hold a ha)]
      exact hat
    · intro k c hk hc hn
      obtain ⟨j, -, rfl, hcj⟩ := hback k c hc hn
      exact hfirst j c (lt_of_positionAfter_lt hk) hcj hn

/-! ## §2 Edits that stay clear of a class -/

/-- A written superclass name that refers to a class is the name of a class above. -/
theorem Written.above {u : Option String} {w : Meaning} (h : m.Written hosts u n)
    (hw : m.meaning hosts n = some w) : m.Above hosts u n := by
  induction h with
  | here => exact .here hw
  | up hv _ ih => exact .up hv (ih hw)

theorem written_some_iff : m.Written hosts (some n) t ↔
    t = n ∨ ∃ w, m.meaning hosts n = some w ∧ m.Written hosts w.superclass t := by
  constructor
  · intro h
    cases h with
    | here => exact Or.inl rfl
    | up hw h => exact Or.inr ⟨_, hw, h⟩
  · rintro (rfl | ⟨w, hw, h⟩)
    · exact .here
    · exact .up hw h

/-- `m.ClearOf hosts d i s`: the statement at `i` is neither the class `d` nor a class above it, and
`s` does not declare the name of `d` or a superclass name that is written at `d` or above. -/
structure ClearOf (m : Module) (hosts : List HostClass) (d : Declared) (i : Nat)
    (s : Option Stmt) : Prop where
  /-- There is a statement to be edited. -/
  inside : i < m.statements.length
  self : d.position ≠ i
  above : ∀ n a, m.Above hosts d.superclass n → m.declaration? n = some a → a.position ≠ i
  name : ∀ c, s.bind Stmt.class? = some c → c.name.name ≠ d.name
  written : ∀ c, s.bind Stmt.class? = some c → ¬ m.Written hosts d.superclass c.name.name

/-- The class itself is declared as before. -/
theorem ClearOf.declaration? (h : m.ClearOf hosts d i s) (hd : m.declaration? d.name = some d) :
    (m.edit i s).declaration? (d.moved i s).name = some (d.moved i s) := by
  show (m.edit i s).declaration? d.name = some (d.moved i s)
  rw [declaration?_edit h.inside _ h.name, hd, Option.map_some]
  intro a ha
  obtain rfl : d = a := Option.some.inj (hd.symm.trans ha)
  exact h.self

/-- So are all classes that are found above it. -/
theorem ClearOf.sameAbove (h : m.ClearOf hosts d i s) :
    m.SameAbove (m.edit i s) hosts d.superclass := by
  intro n hn
  rw [SameDecl, declaration?_edit h.inside, Option.map_map]
  · rfl
  · intro a ha
    exact h.above n a (hn.above (meaning_own hosts ha)) ha
  · rintro c hc rfl
    exact h.written c hc hn

/-- The attempt at the class, if there is one, is the same after the edit. -/
theorem ClearOf.mem_trials_iff (h : m.ClearOf hosts d i s) (hd : m.declaration? d.name = some d) :
    ⟨d.moved i s, r⟩ ∈ (m.edit i s).trials hosts options ↔ ⟨d, r⟩ ∈ m.trials hosts options := by
  rw [mem_trials_iff_attempted, mem_trials_iff_attempted]
  have hm : m.Promotes hosts options (m.finalModule hosts options) _ :=
    promotes_promote m hosts options
  have hm' : (m.edit i s).Promotes hosts options ((m.edit i s).finalModule hosts options) _ :=
    promotes_promote (m.edit i s) hosts options
  have hdecl : (d.moved i s).decl = d.decl := rfl
  have hback : (m.edit i s).SameAbove m hosts (d.moved i s).superclass := h.sameAbove.symm
  constructor
  · rintro ⟨hatt, hgives⟩
    exact hm'.tried hm hback hdecl.symm hd hatt hgives
  · rintro ⟨hatt, hgives⟩
    exact hm.tried hm' h.sameAbove hdecl (h.declaration? hd) hatt hgives

/-- When a statement is deleted or replaced, a class that is not a repeat and of which the edit stays
clear is accepted or not as before, in the run and by the outcome, and becomes the same. -/
theorem promote_edit (hd : m.declaration? d.name = some d) (h : m.ClearOf hosts d i s)
    (options : Options) :
    (m.edit i s).classAt? (positionAfter i s d.position) = some d.decl ∧
      (∀ new, ⟨d.moved i s, .ok new⟩ ∈ (m.edit i s).trials hosts options ↔
        ⟨d, .ok new⟩ ∈ m.trials hosts options) ∧
      (∀ new, (m.edit i s).Succeeds hosts options
          ((m.edit i s).promote (ClassTable.ofHost hosts) options).module (d.moved i s) new ↔
        m.Succeeds hosts options (m.promote (ClassTable.ofHost hosts) options).module d new) ∧
      ((m.edit i s).promote (ClassTable.ofHost hosts) options).module.classAt?
          (positionAfter i s d.position) =
        (m.promote (ClassTable.ofHost hosts) options).module.classAt? d.position := by
  refine ⟨?_, fun new => h.mem_trials_iff hd, fun new => ?_, ?_⟩
  · exact mem_declared_iff.mp (mem_of_declaration? (h.declaration? hd))
  · exact (succeeds_iff.trans (h.mem_trials_iff hd)).trans succeeds_iff.symm
  · have hdecl : (d.moved i s).decl = d.decl := rfl
    -- the class has the same superclasses in both modules, so the same becomes of it
    have hstatement := (promotes_promote m hosts options).statement_eq
      (promotes_promote (m.edit i s) hosts options) h.sameAbove hdecl hd (h.declaration? hd)
    exact congrArg (·.bind Stmt.class?) hstatement

/-- A class whose superclass is unknown. -/
def vehicle : Declared where
  position := 0
  decl := { ClassDecl.named "Vehicle" with
    superclass := some { name := "Item" }
    members := [.ctor (.make [(Param.named "id").withModifier (.storage .final)] [])] }

/-- A class below `vehicle`. -/
def truck : Declared where
  position := 2
  decl := { ClassDecl.named "Truck" with
    superclass := some { name := "Vehicle" }
    members := [.ctor (.make [(Param.named "load").withModifier (.storage .var)] [])] }

/-- The classes `vehicle` and `truck`, and between them another class below `vehicle`, with a field
that clashes. -/
def fleet : Module where
  statements :=
    [.classDecl vehicle.decl,
     .classDecl { ClassDecl.named "Boat" with
        superclass := some { name := "Vehicle" }
        members := [.ctor (.make [(Param.named "id").withModifier (.storage .var)] [])] },
     .classDecl truck.decl]

/-- A class that is its own superclass. -/
def ring : ClassDecl :=
  { ClassDecl.named "Ring" with superclass := some { name := "Ring" } }

theorem clearOf_fleet (hs : ∀ c, s.bind Stmt.class? = some c → c = ring) :
    fleet.ClearOf [] truck 1 s := by
  have hvehicle : fleet.declaration? "Vehicle" = some vehicle := by cbv
  have hitem : fleet.meaning [] "Item" = none := by cbv
  refine ⟨by decide, by decide, ?_, ?_, ?_⟩
  · intro n a hn ha
    have hchain : fleet.Chain [] truck.superclass ["Vehicle"] :=
      .link (meaning_own [] hvehicle) (.root hitem)
    obtain rfl : n = "Vehicle" := List.mem_singleton.mp (hchain.above_iff.mp hn)
    obtain rfl : vehicle = a := Option.some.inj (hvehicle.symm.trans ha)
    decide
  · intro c hc
    obtain rfl := hs c hc
    decide
  · intro c hc hn
    obtain rfl := hs c hc
    -- the names written above are `Vehicle` and `Item`
    have hring : ¬ fleet.Written [] (some "Item") "Ring" := by
      rw [written_some_iff, hitem]
      simp
    have hwritten : fleet.Written [] (some "Vehicle") "Ring" := hn
    rw [written_some_iff, meaning_own [] hvehicle] at hwritten
    obtain hname | ⟨w, hw, hwritten⟩ := hwritten
    · exact absurd hname (by decide)
    · obtain rfl := Option.some.inj hw
      exact hring hwritten

theorem promote_edit_fleet :
    (fleet.declaration? truck.name = some truck ∧ fleet.ClearOf [] truck 1 none ∧
      fleet.ClearOf [] truck 1 (some (.classDecl ring))) ∧
    (fleet.promote (ClassTable.ofHost []) {}).result =
      .error [.duplicateField "id" "Vehicle" {} {}] ∧
    (((fleet.edit 1 none).promote (ClassTable.ofHost []) {}).result.toOption.isSome ∧
      ((fleet.edit 1 none).promote (ClassTable.ofHost []) {}).module.classAt? 1 =
        (fleet.promote (ClassTable.ofHost []) {}).module.classAt? 2) ∧
    (((fleet.edit 1 (some (.classDecl ring))).promote (ClassTable.ofHost []) {}).result =
        .error [.cyclicInheritance "Ring" {}] ∧
      ((fleet.edit 1 (some (.classDecl ring))).promote (ClassTable.ofHost []) {}).module.classAt? 2 =
        (fleet.promote (ClassTable.ofHost []) {}).module.classAt? 2) := by
  have htruck : fleet.declaration? truck.name = some truck := by cbv
  have hnone : fleet.ClearOf [] truck 1 none := clearOf_fleet (by simp)
  have hring : fleet.ClearOf [] truck 1 (some (.classDecl ring)) :=
    clearOf_fleet fun c hc => (Option.some.inj hc).symm
  exact ⟨⟨htruck, hnone, hring⟩, by cbv, ⟨by cbv, (promote_edit htruck hnone {}).2.2.2⟩,
    by cbv, (promote_edit htruck hring {}).2.2.2⟩

end Module

end FieldPromotion
