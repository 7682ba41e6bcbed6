import FieldPromotion.Promotion.Module
import FieldPromotion.Proofs.ContextCheck
import Mathlib.Data.List.Basic

/-!
# The class hierarchy by names

What the superclass names of a module mean, said without a table. A name refers to the first class
of the module that has it, or else to the class that the host registered last under it. Whatever a
class inherits from is found by following names in this way.
-/

namespace FieldPromotion

/-! ## §1 Classes and what their names refer to -/

/-- A class as a host registers it. -/
structure HostClass where
  name : String
  superclass : Option String := none
  fields : List FieldSite := []
  deriving DecidableEq, Inhabited

/-- The table of a host that has registered some classes, one after the other. -/
def ClassTable.ofHost (hosts : List HostClass) : ClassTable :=
  hosts.foldl (fun t h => t.registerExternal h.name h.superclass h.fields) {}

/-- The name of a field and where it stands. -/
def FieldDecl.site (f : FieldDecl) : FieldSite where
  name := f.name.name
  span := f.name.span

/-- The fields of a class as collision checks see them. -/
def ClassDecl.sites (c : ClassDecl) : List FieldSite :=
  c.fields.map FieldDecl.site

/-- A class that stands directly in a module, with the position of its statement. -/
structure Declared where
  position : Nat
  decl : ClassDecl

namespace Declared

def name (d : Declared) : String :=
  d.decl.name.name

def superclass (d : Declared) : Option String :=
  d.decl.superclass.map Ident.name

end Declared

/-- What a class name can refer to: a class of the module, or one of the host. -/
inductive Meaning where
  | own (d : Declared)
  | host (h : HostClass)

namespace Meaning

def name : Meaning → String
  | .own d => d.name
  | .host h => h.name

def superclass : Meaning → Option String
  | .own d => d.superclass
  | .host h => h.superclass

def sites : Meaning → List FieldSite
  | .own d => d.decl.sites
  | .host h => h.fields

end Meaning

namespace Module

/-- The class declared at a position. -/
def classAt? (m : Module) (i : Nat) : Option ClassDecl :=
  (m.statements[i]?).bind Stmt.class?

/-- The classes that stand directly in a module, in source order. -/
def declared (m : Module) : List Declared :=
  m.statements.zipIdx.filterMap fun s => s.1.class?.map fun c => ⟨s.2, c⟩

/-- The first class of a name. Later classes of the same name are repeats. -/
def declaration? (m : Module) (name : String) : Option Declared :=
  m.declared.find? (·.name == name)

/-- What a name refers to in a module and the classes of a host. -/
def meaning (m : Module) (hosts : List HostClass) (name : String) : Option Meaning :=
  match m.declaration? name with
  | some d => some (.own d)
  | none => (hosts.reverse.find? (·.name == name)).map .host

/-! ## §2 Superclass chains -/

/-- `m.Chain hosts s ns`: following superclass names upwards from `s` meets the classes `ns`,
nearest first, and ends there because the last of them has no superclass that is known. -/
inductive Chain (m : Module) (hosts : List HostClass) : Option String → List String → Prop
  | root {s : Option String} : s.bind (m.meaning hosts) = none → Chain m hosts s []
  | link {n : String} {w : Meaning} {ns : List String} : m.meaning hosts n = some w →
      Chain m hosts w.superclass ns → Chain m hosts (some n) (n :: ns)

/-- `m.Above hosts s n`: the class named `n` is met when following superclass names from `s`. -/
inductive Above (m : Module) (hosts : List HostClass) : Option String → String → Prop
  | here {n : String} {w : Meaning} : m.meaning hosts n = some w → Above m hosts (some n) n
  | up {n a : String} {w : Meaning} : m.meaning hosts n = some w →
      Above m hosts w.superclass a → Above m hosts (some n) a

/-- `m.Written hosts s n`: the superclass name `n` is written at `s` or above, whether or not it refers
to a class. -/
inductive Written (m : Module) (hosts : List HostClass) : Option String → String → Prop
  | here {n : String} : Written m hosts (some n) n
  | up {n a : String} {w : Meaning} : m.meaning hosts n = some w →
      Written m hosts w.superclass a → Written m hosts (some n) a

/-- A class on a loop of superclasses: its own name is met above it. A repeat is on no loop, since
no name refers to it. -/
def OnCycle (m : Module) (hosts : List HostClass) (d : Declared) : Prop :=
  m.declaration? d.name = some d ∧ m.Above hosts d.superclass d.name

/-- A class that leads into a loop and has only classes of the host above it. -/
def LeadsToHostCycle (m : Module) (hosts : List HostClass) (d : Declared) : Prop :=
  (∃ n w, m.Above hosts d.superclass n ∧ m.meaning hosts n = some w ∧
    m.Above hosts w.superclass n) ∧
  ∀ n, m.Above hosts d.superclass n → m.declaration? n = none

/-- The error of a class whose name an earlier class has. -/
def repeatError? (m : Module) (d : Declared) : Option Error :=
  (m.declaration? d.name).bind fun first =>
    if first.position < d.position then
      some (.duplicateClass d.name first.decl.name.span d.decl.name.span)
    else none

/-- One error for each repeat, in source order. -/
def repeatErrors (m : Module) : List Error :=
  m.declared.filterMap m.repeatError?

open Classical in
/-- One error for each class on a loop, and then one for each class that leads into a loop of the
host, both in source order. -/
noncomputable def loopErrors (m : Module) (hosts : List HostClass) : List Error :=
  (m.declared.filter (m.OnCycle hosts ·) ++ m.declared.filter (m.LeadsToHostCycle hosts ·)).map
    fun d => .cyclicInheritance d.name d.decl.name.span

end Module

/-! ## §3 Declared classes and positions -/

section Positions

variable {m : Module} {hosts : List HostClass} {d e : Declared} {n : String} {w : Meaning}

/-- The declared classes are those at the positions of the module. -/
theorem Module.mem_declared_iff : d ∈ m.declared ↔ m.classAt? d.position = some d.decl := by
  simp only [Module.declared, Module.classAt?, List.mem_filterMap, Prod.exists,
    List.mk_mem_zipIdx_iff_getElem?, Option.map_eq_some_iff, Option.bind_eq_some_iff]
  constructor
  · rintro ⟨s, i, hs, c, hc, rfl⟩
    exact ⟨s, hs, hc⟩
  · rintro ⟨s, hs, hc⟩
    exact ⟨s, d.position, hs, d.decl, hc, rfl⟩

theorem Stmt.eq_classDecl_of_class? {s : Stmt} {c : ClassDecl} (h : s.class? = some c) :
    s = .classDecl c := by
  cases s with
  | classDecl x => rw [Option.some.inj h]
  | _ => cases h

theorem Module.statement_of_classAt? {i : Nat} {c : ClassDecl} (h : m.classAt? i = some c) :
    m.statements[i]? = some (.classDecl c) := by
  obtain ⟨s, hs, hc⟩ := Option.bind_eq_some_iff.mp h
  rw [hs, Stmt.eq_classDecl_of_class? hc]

theorem Module.map_decl_declared (m : Module) : m.declared.map Declared.decl = m.classes := by
  have hfst : m.statements.zipIdx.map Prod.fst = m.statements := List.zipIdx_map_fst 0 _
  rw [Module.classes, ← hfst, List.filterMap_map, Module.declared, List.map_filterMap]
  simp [Function.comp_def]

/-- The positions of spoilt classes. -/
theorem Module.mem_failed_checkContexts {i : Nat} : i ∈ m.checkContexts.failed ↔
    ∃ c, m.classAt? i = some c ∧ (Stmt.classDecl c).misplacedTop ≠ [] := by
  simp only [Module.checkContexts_eq, Module.spoiltClasses, List.mem_map, List.mem_filter,
    Prod.exists, exists_eq_right, List.mem_zipIdx_iff_getElem?, Stmt.isSpoiltClass,
    Bool.and_eq_true, Bool.not_eq_true']
  constructor
  · rintro ⟨s, hs, hclass, hspoilt⟩
    obtain ⟨c, hc⟩ := Option.isSome_iff_exists.mp hclass
    have hat : m.classAt? i = some c := by
      rw [Module.classAt?, hs, Option.bind_some, hc]
    obtain rfl : s = .classDecl c := by
      simpa [hs] using Module.statement_of_classAt? hat
    exact ⟨c, hat, by simpa using hspoilt⟩
  · rintro ⟨c, hat, hspoilt⟩
    exact ⟨_, Module.statement_of_classAt? hat, rfl, by simpa using hspoilt⟩

/-- There is one class at a position. -/
theorem Declared.eq_of_position (hd : d ∈ m.declared) (he : e ∈ m.declared)
    (h : d.position = e.position) : d = e := by
  rw [Module.mem_declared_iff] at hd he
  rw [h, he, Option.some.injEq] at hd
  cases d
  cases e
  simp_all

/-- Numbered items stand in the order of their numbers. -/
theorem pairwise_zipIdx {α : Type} (xs : List α) : xs.zipIdx.Pairwise fun x y => x.2 < y.2 := by
  have h : (List.range' 0 xs.length).Pairwise (· < ·) := List.pairwise_lt_range'
  rw [← List.zipIdx_map_snd 0 xs, List.pairwise_map] at h
  exact h

/-- Declared classes are listed by increasing position. -/
theorem Module.pairwise_declared (m : Module) :
    m.declared.Pairwise fun d e => d.position < e.position := by
  refine List.Pairwise.filterMap _ (fun s t hst d hd e he => ?_) (pairwise_zipIdx m.statements)
  obtain ⟨c, _, rfl⟩ := Option.map_eq_some_iff.mp hd
  obtain ⟨c', _, rfl⟩ := Option.map_eq_some_iff.mp he
  exact hst

theorem Module.nodup_declared (m : Module) : m.declared.Nodup :=
  m.pairwise_declared.imp fun hlt heq => Nat.ne_of_lt hlt (congrArg Declared.position heq)

theorem Module.mem_of_declaration? (h : m.declaration? n = some d) : d ∈ m.declared :=
  List.mem_of_find?_eq_some h

theorem Module.name_of_declaration? (h : m.declaration? n = some d) : d.name = n := by
  simpa using List.find?_some h

/-- The name of a declared class refers to some class of the module. -/
theorem Module.declaration?_isSome (hd : d ∈ m.declared) : ∃ e, m.declaration? d.name = some e := by
  cases h : m.declaration? d.name with
  | some e => exact ⟨e, rfl⟩
  | none =>
    have := List.find?_eq_none.mp h d hd
    simp at this

/-- The first class of a name, by positions. -/
theorem Module.declaration?_eq_some_iff : m.declaration? n = some d ↔
    m.classAt? d.position = some d.decl ∧ d.name = n ∧
      ∀ i c, i < d.position → m.classAt? i = some c → c.name.name ≠ n := by
  have hfirst : ∀ {e : Declared}, m.declaration? n = some e →
      ∀ i c, i < e.position → m.classAt? i = some c → c.name.name ≠ n := by
    intro e he i c hi hc hn
    obtain ⟨_, as, bs, heq, has⟩ := List.find?_eq_some_iff_append.mp he
    have hmem : (⟨i, c⟩ : Declared) ∈ m.declared := Module.mem_declared_iff.mpr hc
    have hpos := m.pairwise_declared
    rw [heq, List.pairwise_append, List.pairwise_cons] at hpos
    rw [heq, List.mem_append, List.mem_cons] at hmem
    -- before the class there is none with the name, and after it positions are greater
    rcases hmem with hmem | rfl | hmem
    · have := has _ hmem
      simp [Declared.name, hn] at this
    · exact Nat.lt_irrefl i hi
    · exact Nat.lt_asymm hi (hpos.2.1.1 _ hmem)
  constructor
  · intro h
    exact ⟨Module.mem_declared_iff.mp (Module.mem_of_declaration? h), Module.name_of_declaration? h,
      hfirst h⟩
  · rintro ⟨hd, rfl, hmin⟩
    obtain ⟨e, he⟩ := Module.declaration?_isSome (Module.mem_declared_iff.mpr hd)
    have hmem := Module.mem_of_declaration? he
    -- of two classes with the name the one that comes first is found
    rcases Nat.lt_trichotomy e.position d.position with hlt | heq | hgt
    · refine absurd (Module.name_of_declaration? he) ?_
      exact hmin e.position e.decl hlt (Module.mem_declared_iff.mp hmem)
    · rw [he, Declared.eq_of_position hmem (Module.mem_declared_iff.mpr hd) heq]
    · exact absurd rfl (hfirst he d.position d.decl hgt hd)

/-- A name refers to no class of the module when none has it. -/
theorem Module.declaration?_eq_none_iff : m.declaration? n = none ↔
    ∀ i c, m.classAt? i = some c → c.name.name ≠ n := by
  rw [Module.declaration?, List.find?_eq_none]
  constructor
  · intro h i c hc hn
    refine h ⟨i, c⟩ (Module.mem_declared_iff.mpr hc) ?_
    simpa [Declared.name] using hn
  · intro h e he hn
    exact h e.position e.decl (Module.mem_declared_iff.mp he) (beq_iff_eq.mp hn)

/-- The classes of the module come before those of the host. -/
theorem Module.meaning_own (hosts : List HostClass) (h : m.declaration? n = some d) :
    m.meaning hosts n = some (.own d) := by
  simp [Module.meaning, h]

theorem Module.declaration?_of_meaning_own (h : m.meaning hosts n = some (.own d)) :
    m.declaration? n = some d := by
  unfold Module.meaning at h
  split at h
  · simp_all
  · simp at h

/-- A name refers to a class that has it. -/
theorem Module.name_of_meaning (h : m.meaning hosts n = some w) : w.name = n := by
  unfold Module.meaning at h
  split at h
  · cases h
    exact Module.name_of_declaration? ‹_›
  · obtain ⟨x, hx, rfl⟩ := Option.map_eq_some_iff.mp h
    simpa [Meaning.name] using List.find?_some hx

/-- A name that does not refer to a class of the module refers to one of the host, if to any. -/
theorem Module.declaration?_eq_none_iff_host (hw : m.meaning hosts n = some w) :
    m.declaration? n = none ↔ ∃ x, w = .host x := by
  cases w with
  | own e => simp [Module.declaration?_of_meaning_own hw]
  | host x =>
    constructor
    · intro _
      exact ⟨x, rfl⟩
    · intro _
      cases he : m.declaration? n with
      | none => rfl
      | some e =>
        rw [Module.meaning_own hosts he] at hw
        cases hw

end Positions

/-! ## §4 Chains -/

namespace Module

variable {m : Module} {hosts : List HostClass} {s : Option String} {n a : String}
  {ns ks : List String}

/-- There is at most one chain. -/
theorem Chain.unique (h : m.Chain hosts s ns) (h' : m.Chain hosts s ks) : ns = ks := by
  induction h generalizing ks with
  | root hs =>
    cases h' with
    | root _ => rfl
    | link hn _ => simp [hn] at hs
  | link hn _ ih =>
    cases h' with
    | root hs => simp [hn] at hs
    | link hk hks =>
      rw [hn, Option.some.injEq] at hk
      subst hk
      rw [ih hks]

/-- A class of a chain has the rest of the chain above it. -/
theorem Chain.of_mem (h : m.Chain hosts s ns) (hn : n ∈ ns) :
    ∃ w ks, m.meaning hosts n = some w ∧ m.Chain hosts w.superclass ks ∧
      ks.length < ns.length ∧ ks ⊆ ns := by
  induction h with
  | root _ => cases hn
  | @link n' w ns hw hch ih =>
    rcases List.mem_cons.mp hn with rfl | hn
    · exact ⟨w, ns, hw, hch, by simp, List.subset_cons_self n ns⟩
    · obtain ⟨w', ks, hw', hks, hlen, hsub⟩ := ih hn
      exact ⟨w', ks, hw', hks, by simp; omega, List.subset_cons_of_subset n' hsub⟩

/-- From every class on a chain, the rest of the chain goes up. -/
theorem Chain.of_declaration? {d : Declared} (h : m.Chain hosts s ns) (hn : n ∈ ns)
    (hd : m.declaration? n = some d) :
    ∃ ks, m.Chain hosts d.superclass ks ∧ ks.length < ns.length := by
  obtain ⟨w, ks, hw, hks, hlt, -⟩ := h.of_mem hn
  obtain rfl : w = .own d := Option.some.inj (hw.symm.trans (meaning_own hosts hd))
  exact ⟨ks, hks, hlt⟩

/-- What holds of a class whenever it holds of all classes of the module above it, holds of every
class with a chain. -/
theorem Chain.induction {P : Declared → Prop} {d : Declared}
    (step : ∀ d ns, m.Chain hosts d.superclass ns →
      (∀ n ∈ ns, ∀ a, m.declaration? n = some a → P a) → P d)
    (hns : m.Chain hosts d.superclass ns) : P d := by
  induction hlen : ns.length using Nat.strongRecOn generalizing d ns with
  | _ k ih =>
    subst hlen
    apply step d ns hns
    intro n hn a ha
    obtain ⟨ks, hks, hlt⟩ := hns.of_declaration? hn ha
    exact ih ks.length hlt hks rfl

/-- What is above a name is the name itself and what is above its class. -/
theorem above_some_iff {w : Meaning} (hw : m.meaning hosts n = some w) :
    m.Above hosts (some n) a ↔ a = n ∨ m.Above hosts w.superclass a := by
  constructor
  · intro ha
    cases ha with
    | here _ => exact Or.inl rfl
    | up hw' ha =>
      rw [hw, Option.some.injEq] at hw'
      subst hw'
      exact Or.inr ha
  · rintro (rfl | ha)
    · exact .here hw
    · exact .up hw ha

/-- The classes of a chain are those above. -/
theorem Chain.above_iff (h : m.Chain hosts s ns) : m.Above hosts s n ↔ n ∈ ns := by
  induction h with
  | root hs =>
    simp only [List.not_mem_nil, iff_false]
    intro ha
    cases ha with
    | here hw => simp [hw] at hs
    | up hw _ => simp [hw] at hs
  | @link n' w ns hw hch ih =>
    rw [List.mem_cons, ← ih, above_some_iff hw]

/-- What is above a class that is above is above. -/
theorem Above.trans {w : Meaning} (h : m.Above hosts s n) (hn : m.meaning hosts n = some w)
    (ha : m.Above hosts w.superclass a) : m.Above hosts s a := by
  induction h with
  | here hw => exact .up hn ha
  | up hw _ ih => exact .up hw (ih hn)

/-- A chain above a class that is met gives a chain from the start. -/
theorem Above.exists_chain {w : Meaning} (h : m.Above hosts s n) (hn : m.meaning hosts n = some w)
    (hks : m.Chain hosts w.superclass ks) : ∃ ns, m.Chain hosts s ns := by
  induction h with
  | here hw =>
    rw [hn, Option.some.injEq] at hw
    subst hw
    exact ⟨_, .link hn hks⟩
  | up hw _ ih =>
    obtain ⟨ns, hns⟩ := ih hn
    exact ⟨_, .link hw hns⟩

/-- Below a loop there is no chain. -/
theorem Chain.not_cycle {w : Meaning} (h : m.Chain hosts s ns) (ha : m.Above hosts s n)
    (hn : m.meaning hosts n = some w) : ¬ m.Above hosts w.superclass n := by
  intro hloop
  obtain ⟨w', ks, hw', hks, -⟩ := h.of_mem (h.above_iff.mp ha)
  rw [hn, Option.some.injEq] at hw'
  subst hw'
  -- the chain of `n` would be shorter than itself
  obtain ⟨w', ls, hw', hls, hlen, -⟩ := hks.of_mem (hks.above_iff.mp hloop)
  rw [hn, Option.some.injEq] at hw'
  subst hw'
  rw [hls.unique hks] at hlen
  exact Nat.lt_irrefl _ hlen

/-- Whatever is met on a loop leads back to where the loop was entered. -/
theorem Above.back_of_loop {k : String} {w v : Meaning} (hw : m.meaning hosts n = some w)
    (hloop : m.Above hosts w.superclass n) (hk : m.Above hosts s k) (hn : m.Above hosts s n)
    (hv : m.meaning hosts k = some v) : k = n ∨ m.Above hosts v.superclass n := by
  induction hk with
  | here _ => exact ((above_some_iff hv).mp hn).imp Eq.symm id
  | up hx _ ih =>
    apply ih _ hv
    rcases (above_some_iff hx).mp hn with rfl | hn
    · -- the loop is entered here
      rw [hx, Option.some.injEq] at hw
      rw [hw]
      exact hloop
    · exact hn

/-- When names lead from `s` into a loop of the host, either there is no class of the module above
`s`, or one of them leads directly into that loop. -/
theorem Above.leadsToHostCycle {w : Meaning} (hn : m.Above hosts s n)
    (hw : m.meaning hosts n = some w) (hloop : m.Above hosts w.superclass n)
    (hhost : ∀ k, m.Above hosts w.superclass k → m.declaration? k = none) :
    (∀ k, m.Above hosts s k → m.declaration? k = none) ∨
      ∃ k e, m.Above hosts s k ∧ m.declaration? k = some e ∧ m.LeadsToHostCycle hosts e := by
  induction hn with
  | here _ =>
    apply Or.inl
    intro k hk
    rcases (above_some_iff hw).mp hk with rfl | hk
    · exact hhost k hloop
    · exact hhost k hk
  | @up x n v hx hn ih =>
    rcases ih hw hloop with hnone | ⟨k, e, hk, he, hlead⟩
    · cases hd : m.declaration? x with
      | none =>
        apply Or.inl
        intro k hk
        rcases (above_some_iff hx).mp hk with rfl | hk
        · exact hd
        · exact hnone k hk
      | some e =>
        -- the last class of the module before the loop
        obtain rfl : v = .own e := Option.some.inj (hx.symm.trans (meaning_own hosts hd))
        exact Or.inr ⟨x, e, .here hx, hd, ⟨n, w, hn, hw, hloop⟩, hnone⟩
    · exact Or.inr ⟨k, e, .up hx hk, he, hlead⟩

/-- A class with nothing but classes of the host above it is on no loop. -/
theorem LeadsToHostCycle.not_onCycle {d : Declared} (h : m.LeadsToHostCycle hosts d) :
    ¬ m.OnCycle hosts d := by
  rintro ⟨hfirst, habove⟩
  rw [h.2 d.name habove] at hfirst
  cases hfirst

/-- The name of a class above is written somewhere on the way. -/
theorem Above.written (h : m.Above hosts s n) : m.Written hosts s n := by
  induction h with
  | here _ => exact .here
  | up hw _ ih => exact .up hw ih

theorem Above.trans_written {w : Meaning} (h : m.Above hosts s n) (hn : m.meaning hosts n = some w)
    (ha : m.Written hosts w.superclass a) : m.Written hosts s a := by
  induction h with
  | here _ => exact .up hn ha
  | up hw _ ih => exact .up hw (ih hn)

/-! ## §5 Two modules with the same superclasses -/

/-- Every name that is written at `s` or above refers to classes with the same superclass in both
modules, or to no class in either. -/
def SameSuperclasses (m m' : Module) (hosts : List HostClass) (s : Option String) : Prop :=
  ∀ n, m.Written hosts s n →
    (m.meaning hosts n).map Meaning.superclass = (m'.meaning hosts n).map Meaning.superclass

namespace SameSuperclasses

variable {m' : Module} {d d' : Declared} {w : Meaning}

/-- Whatever is the same from a name on is the same from its class on. -/
theorem up (h : m.SameSuperclasses m' hosts (some n)) (hw : m.meaning hosts n = some w) :
    m.SameSuperclasses m' hosts w.superclass :=
  fun a ha => h a (.up hw ha)

theorem meaning (h : m.SameSuperclasses m' hosts s) (hn : m.Written hosts s n)
    (hw : m.meaning hosts n = some w) :
    ∃ w', m'.meaning hosts n = some w' ∧ w'.superclass = w.superclass := by
  have heq := h n hn
  rw [hw, Option.map_some, eq_comm, Option.map_eq_some_iff] at heq
  exact heq

/-- Such modules have the same chains. -/
theorem chain (h : m.SameSuperclasses m' hosts s) (hns : m.Chain hosts s ns) :
    m'.Chain hosts s ns := by
  induction hns with
  | @root s hs =>
    refine .root (Option.bind_eq_none_iff.mpr ?_)
    rintro n rfl
    have heq := h n .here
    rw [show m.meaning hosts n = none from hs, Option.map_none, eq_comm] at heq
    exact Option.map_eq_none_iff.mp heq
  | link hw _ ih =>
    obtain ⟨w', hw', hsup⟩ := h.meaning .here hw
    exact .link hw' (hsup ▸ ih (h.up hw))

/-- The same classes are above. -/
theorem above (h : m.SameSuperclasses m' hosts s) (hn : m.Above hosts s n) :
    m'.Above hosts s n := by
  induction hn with
  | here hw =>
    obtain ⟨w', hw', -⟩ := h.meaning .here hw
    exact .here hw'
  | up hw _ ih =>
    obtain ⟨w', hw', hsup⟩ := h.meaning .here hw
    exact .up hw' (hsup ▸ ih (h.up hw))

theorem written (h : m.SameSuperclasses m' hosts s) (hn : m.Written hosts s n) :
    m'.Written hosts s n := by
  induction hn with
  | here => exact .here
  | up hw _ ih =>
    obtain ⟨w', hw', hsup⟩ := h.meaning .here hw
    exact .up hw' (hsup ▸ ih (h.up hw))

/-- This is the same in both directions. -/
theorem symm (h : m.SameSuperclasses m' hosts s) : m'.SameSuperclasses m hosts s := by
  intro n hn
  induction hn with
  | here => exact (h _ .here).symm
  | up hw' _ ih =>
    -- the name refers to a class in `m` too, and above that class the modules still agree
    have heq := h _ .here
    rw [hw', Option.map_some, Option.map_eq_some_iff] at heq
    obtain ⟨w, hw, hsup⟩ := heq
    apply ih
    rw [← hsup]
    exact h.up hw

/-- A class is on a loop in the other module as well. -/
theorem onCycle (h : m.SameSuperclasses m' hosts d.superclass)
    (hd' : m'.declaration? d'.name = some d') (hname : d'.name = d.name)
    (hsup : d'.superclass = d.superclass) (hd : m.OnCycle hosts d) : m'.OnCycle hosts d' := by
  refine ⟨hd', ?_⟩
  rw [hname, hsup]
  exact h.above hd.2

/-- A class leads into a loop of the host in the other module as well, when the classes above it are
classes of the host there too. -/
theorem leadsToHostCycle (h : m.SameSuperclasses m' hosts d.superclass)
    (hnone : ∀ n, m.declaration? n = none → m'.declaration? n = none)
    (hsup : d'.superclass = d.superclass) (hd : m.LeadsToHostCycle hosts d) :
    m'.LeadsToHostCycle hosts d' := by
  obtain ⟨⟨n, w, hn, hw, hloop⟩, hhost⟩ := hd
  obtain ⟨w', hw', hsup'⟩ := h.meaning hn.written hw
  unfold LeadsToHostCycle
  rw [hsup]
  refine ⟨⟨n, w', h.above hn, hw', ?_⟩, ?_⟩
  · have hup : m.SameSuperclasses m' hosts w.superclass := fun a ha => h a (hn.trans_written hw ha)
    rw [hsup']
    exact hup.above hloop
  · intro k hk
    exact hnone k (hhost k (h.symm.above hk))

end SameSuperclasses

end Module

end FieldPromotion
