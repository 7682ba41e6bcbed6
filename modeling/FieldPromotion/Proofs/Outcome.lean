import FieldPromotion.Proofs.Heads
import Mathlib.Data.List.Sort

/-!
# The outcome of a module, class by class

What promotion does to a module, said without an order of steps. Whether a class is attempted, and
what the attempt gives, depends on the class as it was written and on the classes above it as they
are in the outcome. At most one outcome fits this description.
-/

namespace FieldPromotion

/-! ## §1 Fields in sight of a class -/

/-- The nearest declaration of a field name among classes that are listed nearest first: the first
field of that name in the first class that has one. -/
def nearest? (lineage : List (String × List FieldSite)) (name : String) : Option (String × Span) :=
  lineage.findSome? fun c => (c.2.find? (·.name == name)).map fun f => (c.1, f.span)

/-- An index that maps each name to its nearest declaration. -/
def FieldIndex.Shows (index : FieldIndex) (lineage : List (String × List FieldSite)) : Prop :=
  ∀ name, index.origin? name = nearest? lineage name

namespace Module

/-- The fields of the class that a name refers to. -/
def sitesOf (m : Module) (hosts : List HostClass) (name : String) : List FieldSite :=
  ((m.meaning hosts name).map Meaning.sites).getD []

/-- A class with its own fields, and the classes `ns` above it with the fields they have in `out` and
in the host. -/
def lineage (out : Module) (hosts : List HostClass) (d : Declared) (ns : List String) :
    List (String × List FieldSite) :=
  (d.name, d.decl.sites) :: ns.map fun n => (n, out.sitesOf hosts n)

/-! ## §2 Attempts -/

/-- `m.Gives hosts options out d result`: promoting the class `d` as it is written gives `result`,
when each name is looked up at its nearest declaration among the fields of `d` itself and those that
the classes above it have in `out`. -/
def Gives (m : Module) (hosts : List HostClass) (options : Options) (out : Module) (d : Declared)
    (result : Except (List Error) Promoted) : Prop :=
  ∃ ns index, m.Chain hosts d.superclass ns ∧ index.Shows (out.lineage hosts d ns) ∧
    d.decl.promote index options = result

/-- The classes that are attempted: not a repeat, with a chain that ends, with nothing misplaced
inside, and with all classes of the module above it attempted and accepted. -/
inductive Attempted (m : Module) (hosts : List HostClass) (options : Options) (out : Module) :
    Declared → Prop
  | intro {d : Declared} {ns : List String} :
      m.declaration? d.name = some d →
      m.Chain hosts d.superclass ns →
      (Stmt.classDecl d.decl).misplacedTop = [] →
      (∀ n ∈ ns, ∀ a, m.declaration? n = some a → Attempted m hosts options out a) →
      (∀ n ∈ ns, ∀ a, m.declaration? n = some a →
        ∃ new, m.Gives hosts options out a (.ok new)) →
      Attempted m hosts options out d

/-- A class is attempted and accepted. -/
def Succeeds (m : Module) (hosts : List HostClass) (options : Options) (out : Module) (d : Declared)
    (new : Promoted) : Prop :=
  m.Attempted hosts options out d ∧ m.Gives hosts options out d (.ok new)

/-- Classes with fewer classes above them come first, and those with equally many come in source
order. -/
def Before (m : Module) (hosts : List HostClass) (d e : Declared) : Prop :=
  ∃ ns ks, m.Chain hosts d.superclass ns ∧ m.Chain hosts e.superclass ks ∧
    (ns.length < ks.length ∨ ns.length = ks.length ∧ d.position < e.position)

end Module

/-- An attempted class and what the attempt gave. -/
structure Trial where
  cls : Declared
  result : Except (List Error) Promoted

namespace Trial

def errors (t : Trial) : List Error :=
  match t.result with
  | .ok _ => []
  | .error errors => errors

def report? (t : Trial) : Option ClassReport :=
  match t.result with
  | .ok new => some { cls := t.cls.name, fields := new.fields }
  | .error _ => none

end Trial

/-! ## §3 Outcomes -/

/-- The result of a run: all errors if there are any, and else the reports. -/
def verdict (errors : List Error) (reports : List ClassReport) : Except (List Error) Report :=
  if errors.isEmpty then .ok { classes := reports } else .error errors

theorem verdict_eq_ok_iff {errors : List Error} {reports : List ClassReport} {report : Report} :
    verdict errors reports = .ok report ↔ errors = [] ∧ report = { classes := reports } := by
  cases errors with
  | nil => simp [verdict, eq_comm]
  | cons e es => simp [verdict]

namespace Module

/-- The attempts of a run in the order in which they are reported. -/
structure IsSchedule (m : Module) (hosts : List HostClass) (options : Options) (out : Module)
    (trials : List Trial) : Prop where
  mem_iff : ∀ t, t ∈ trials ↔
    m.Attempted hosts options out t.cls ∧ m.Gives hosts options out t.cls t.result
  sorted : trials.Pairwise fun t u => m.Before hosts t.cls u.cls

/-- The errors of a run: misplaced modifiers, repeated classes, loops, and the errors of attempted
classes, in this order. -/
noncomputable def allErrors (m : Module) (hosts : List HostClass) (trials : List Trial) :
    List Error :=
  m.misplaced ++ m.repeatErrors ++ m.loopErrors hosts ++ trials.flatMap Trial.errors

/-- `m.Promotes hosts options out result`: the statements of accepted classes are replaced by what
promotion makes of them, all other statements stay, and the result lists the errors of the module
and of the attempted classes or, if there are none, the reports of the attempted classes. -/
structure Promotes (m : Module) (hosts : List HostClass) (options : Options) (out : Module)
    (result : Except (List Error) Report) : Prop where
  span : out.span = m.span
  accepted : ∀ d new, m.Succeeds hosts options out d new →
    out.statements[d.position]? = some (.classDecl new.decl)
  kept : ∀ i, (∀ d new, m.Succeeds hosts options out d new → d.position ≠ i) →
    out.statements[i]? = m.statements[i]?
  result : ∃ trials, m.IsSchedule hosts options out trials ∧
    result = verdict (m.allErrors hosts trials) (trials.filterMap Trial.report?)

end Module

/-! ## §4 Attempts have one result -/

theorem lookup_map_sites (fs : List FieldSite) (origin : FieldSite → FieldOrigin)
    (name : String) : (fs.map fun f => (f.name, origin f)).lookup name =
      (fs.find? (·.name == name)).map origin := by
  induction fs with
  | nil => rfl
  | cons f fs ih =>
    rw [List.map_cons, List.lookup_cons, List.find?_cons, BEq.comm, ih]
    cases f.name == name <;> rfl

/-- A key is found in the first of several lists that has it. -/
theorem lookup_flatMap {α β : Type} (f : α → List (String × β)) (xs : List α) (name : String) :
    (xs.flatMap f).lookup name = xs.findSome? fun x => (f x).lookup name := by
  induction xs with
  | nil => rfl
  | cons x xs ih =>
    rw [List.flatMap_cons, List.lookup_append, List.findSome?_cons, ih]
    cases (f x).lookup name <;> rfl

/-- An index that lists the fields of classes one after the other maps each name to its nearest
declaration. -/
theorem FieldIndex.shows_flatMap {α : Type} (cls : α → ClassId)
    (g : α → String × List FieldSite) (xs : List α) :
    FieldIndex.Shows ⟨xs.flatMap fun x => (g x).2.map fun f =>
      (f.name, { cls := cls x, className := (g x).1, span := f.span })⟩ (xs.map g) := by
  intro name
  rw [FieldIndex.origin?, FieldIndex.get?, nearest?, lookup_flatMap, List.map_findSome?,
    List.findSome?_map]
  simp only [lookup_map_sites, Function.comp_def, Option.map_map]

/-- What is nearest depends only on where each class has a name. -/
theorem nearest?_congr {l l' : List (String × List FieldSite)} {name : String}
    (h : l.map (fun c => (c.1, c.2.find? (·.name == name))) =
      l'.map fun c => (c.1, c.2.find? (·.name == name))) : nearest? l name = nearest? l' name := by
  have hmap : ∀ l : List (String × List FieldSite), nearest? l name =
      (l.map fun c => (c.1, c.2.find? (·.name == name))).findSome? fun c =>
        c.2.map fun f => (c.1, f.span) := by
    intro l
    rw [List.findSome?_map]
    rfl
  rw [hmap, hmap, h]

theorem nearest?_eq_none_iff {l : List (String × List FieldSite)} {name : String} :
    nearest? l name = none ↔ ∀ c ∈ l, ∀ f ∈ c.2, f.name ≠ name := by
  simp [nearest?]

/-- A name is out of sight exactly if no class has a field of that name. -/
theorem FieldIndex.Shows.get?_eq_none_iff {index : FieldIndex}
    {l : List (String × List FieldSite)} (h : index.Shows l) {name : String} :
    index.get? name = none ↔ ∀ c ∈ l, ∀ f ∈ c.2, f.name ≠ name := by
  rw [← FieldIndex.origin?_eq_none_iff, h name, nearest?_eq_none_iff]

/-- Every lineage has an index. -/
theorem FieldIndex.exists_shows (lineage : List (String × List FieldSite)) :
    ∃ index : FieldIndex, index.Shows lineage := by
  have h := FieldIndex.shows_flatMap (fun _ => 0) id lineage
  rw [List.map_id] at h
  exact ⟨_, h⟩

namespace Module

variable {m m' out out' : Module} {hosts : List HostClass} {options : Options}
  {d d' e : Declared} {r r' : Except (List Error) Promoted} {ns : List String} {n : String}
  {s : Option String} {new : Promoted}

theorem Gives.unique (h : m.Gives hosts options out d r) (h' : m.Gives hosts options out d r') :
    r = r' := by
  obtain ⟨ns, index, hns, hshows, rfl⟩ := h
  obtain ⟨ns', index', hns', hshows', rfl⟩ := h'
  obtain rfl := hns.unique hns'
  exact ClassDecl.promote_congr (fun n => (hshows n).trans (hshows' n).symm) d.decl options

theorem Gives.promote (h : m.Gives hosts options out d r) :
    ∃ index, d.decl.promote index options = r := by
  obtain ⟨_, index, _, _, h⟩ := h
  exact ⟨index, h⟩

/-- Every class with a chain would give some result. -/
theorem Chain.exists_gives (hns : m.Chain hosts d.superclass ns) (options : Options)
    (out : Module) : ∃ r, m.Gives hosts options out d r := by
  obtain ⟨index, hshows⟩ := FieldIndex.exists_shows (out.lineage hosts d ns)
  exact ⟨_, ns, index, hns, hshows, rfl⟩

/-- A class is attempted when nothing is wrong with it before it is looked at and all classes of the
module above it are accepted. -/
theorem Chain.attempted_iff (hns : m.Chain hosts d.superclass ns) :
    m.Attempted hosts options out d ↔ m.declaration? d.name = some d ∧
      (Stmt.classDecl d.decl).misplacedTop = [] ∧
      ∀ n ∈ ns, ∀ a, m.declaration? n = some a → ∃ new, m.Succeeds hosts options out a new := by
  constructor
  · intro h
    cases h with
    | @intro _ ns' hfirst hns' hplaced hatt hacc =>
      -- there is only one chain
      obtain rfl := hns.unique hns'
      refine ⟨hfirst, hplaced, fun n hn a ha => ?_⟩
      obtain ⟨new, hnew⟩ := hacc n hn a ha
      exact ⟨new, hatt n hn a ha, hnew⟩
  · rintro ⟨hfirst, hplaced, habove⟩
    refine .intro hfirst hns hplaced ?_ ?_
    · intro n hn a ha
      obtain ⟨new, hs⟩ := habove n hn a ha
      exact hs.1
    · intro n hn a ha
      obtain ⟨new, hs⟩ := habove n hn a ha
      exact ⟨new, hs.2⟩

theorem Attempted.chain (h : m.Attempted hosts options out d) :
    ∃ ns, m.Chain hosts d.superclass ns := by
  cases h
  exact ⟨_, by assumption⟩

theorem Attempted.declaration? (h : m.Attempted hosts options out d) :
    m.declaration? d.name = some d := by
  cases h
  assumption

theorem Attempted.placed (h : m.Attempted hosts options out d) :
    (Stmt.classDecl d.decl).misplacedTop = [] := by
  cases h
  assumption

theorem Attempted.classAt? (h : m.Attempted hosts options out d) :
    m.classAt? d.position = some d.decl :=
  mem_declared_iff.mp (mem_of_declaration? h.declaration?)

/-! ## §5 What is tried depends on the classes above -/

/-- Promotion keeps the heads of classes. -/
theorem Promotes.sameHeads {result : Except (List Error) Report}
    (h : m.Promotes hosts options out result) : m.SameHeads out := by
  apply SameHeads.of_promoted
  intro i
  by_cases hex : ∃ d new, m.Succeeds hosts options out d new ∧ d.position = i
  · obtain ⟨d, new, hs, rfl⟩ := hex
    obtain ⟨index, hindex⟩ := hs.2.promote
    exact Or.inr ⟨d.decl, index, options, new, hs.1.classAt?, hindex, h.accepted d new hs⟩
  · exact Or.inl (h.kept i fun d new hs hi => hex ⟨d, new, hs, hi⟩)

/-- A class that is not accepted stays as it is. -/
theorem Promotes.kept_class {result : Except (List Error) Report}
    (h : m.Promotes hosts options out result) (hd : d ∈ m.declared)
    (hnot : ¬ ∃ new, m.Succeeds hosts options out d new) :
    out.statements[d.position]? = some (.classDecl d.decl) := by
  rw [h.kept d.position, statement_of_classAt? (mem_declared_iff.mp hd)]
  intro e new hs hpos
  obtain rfl := Declared.eq_of_position (mem_of_declaration? hs.1.declaration?) hd hpos
  exact hnot ⟨new, hs⟩

theorem Promotes.kept_of_not_class {result : Except (List Error) Report} {i : Nat}
    (h : m.Promotes hosts options out result) (hi : m.classAt? i = none) :
    out.statements[i]? = m.statements[i]? := by
  apply h.kept
  rintro d new hs rfl
  rw [hs.1.classAt?] at hi
  cases hi

/-- Both modules declare the same class under a name, or neither declares one. -/
def SameDecl (m m' : Module) (n : String) : Prop :=
  (m.declaration? n).map Declared.decl = (m'.declaration? n).map Declared.decl

theorem SameDecl.exists_declaration? (h : m.SameDecl m' n) (hd : m.declaration? n = some d) :
    ∃ d', m'.declaration? n = some d' ∧ d'.decl = d.decl := by
  rw [SameDecl, hd, Option.map_some, eq_comm, Option.map_eq_some_iff] at h
  exact h

theorem SameDecl.declaration?_eq_none (h : m.SameDecl m' n) (hd : m.declaration? n = none) :
    m'.declaration? n = none := by
  rw [SameDecl, hd, Option.map_none, eq_comm, Option.map_eq_none_iff] at h
  exact h

/-- Both modules declare the same classes under the names that are written at `s` or above. -/
def SameAbove (m m' : Module) (hosts : List HostClass) (s : Option String) : Prop :=
  ∀ n, m.Written hosts s n → m.SameDecl m' n

theorem SameAbove.refl (m : Module) (hosts : List HostClass) (s : Option String) :
    m.SameAbove m hosts s :=
  fun _ _ => rfl

theorem SameAbove.sameSuperclasses (h : m.SameAbove m' hosts s) :
    m.SameSuperclasses m' hosts s := by
  intro n hn
  unfold Module.meaning
  cases ha : m.declaration? n with
  | none => rw [(h n hn).declaration?_eq_none ha]
  | some a =>
    obtain ⟨a', ha', hdecl⟩ := (h n hn).exists_declaration? ha
    simp [ha', Meaning.superclass, Declared.superclass, hdecl]

theorem SameAbove.symm (h : m.SameAbove m' hosts s) : m'.SameAbove m hosts s :=
  fun n hn => (h n (h.sameSuperclasses.symm.written hn)).symm

section Tried

variable {result result' : Except (List Error) Report} (h : m.Promotes hosts options out result)
  (h' : m'.Promotes hosts options out' result')
include h h'

/-- A name stands for the same fields in two outcomes, unless it stands for a class that is not
accepted in both modules. -/
theorem Promotes.sitesOf_eq (hn : m.SameDecl m' n)
    (hacc : ∀ a a', m.declaration? n = some a → m'.declaration? n = some a' →
      ∃ new, m.Succeeds hosts options out a new ∧ m'.Succeeds hosts options out' a' new) :
    out.sitesOf hosts n = out'.sitesOf hosts n := by
  unfold sitesOf
  cases ha : m.declaration? n with
  | none =>
    rw [Module.meaning, Module.meaning, h.sameHeads.declaration?_eq_none ha,
      h'.sameHeads.declaration?_eq_none (hn.declaration?_eq_none ha)]
  | some a =>
    obtain ⟨a', ha', -⟩ := hn.exists_declaration? ha
    -- both modules end up with the same class under the name
    obtain ⟨new, hs, hs'⟩ := hacc a a' ha ha'
    obtain ⟨c, hc, -, -, hout⟩ := h.sameHeads.declaration? ha
    obtain ⟨c', hc', -, -, hout'⟩ := h'.sameHeads.declaration? ha'
    rw [Module.classAt?, h.accepted a new hs] at hc
    rw [Module.classAt?, h'.accepted a' new hs'] at hc'
    obtain rfl : c = c' := Option.some.inj (hc.symm.trans hc')
    rw [meaning_own hosts hout, meaning_own hosts hout']
    rfl

/-- Whatever is tried in one module is tried in the other, to the same result, when it is the same
class with the same classes above: these have the same fields in both outcomes. -/
theorem Promotes.tried (hsame : m.SameAbove m' hosts d.superclass) (hdecl : d'.decl = d.decl)
    (hd' : m'.declaration? d'.name = some d') (hatt : m.Attempted hosts options out d)
    (hr : m.Gives hosts options out d r) :
    m'.Attempted hosts options out' d' ∧ m'.Gives hosts options out' d' r := by
  obtain ⟨ns, hns⟩ := hatt.chain
  revert d' r
  revert hsame hatt
  apply hns.induction
  intro d ns hns ih hsame hatt d' r hdecl hd' hr
  obtain ⟨-, hplaced, hacc⟩ := hns.attempted_iff.mp hatt
  have hname : d'.name = d.name := congrArg (·.name.name) hdecl
  have hsup : d'.superclass = d.superclass := congrArg (·.superclass.map Ident.name) hdecl
  have hns' : m'.Chain hosts d'.superclass ns := by
    rw [hsup]
    exact hsame.sameSuperclasses.chain hns
  have hagree : ∀ n ∈ ns, m.SameDecl m' n :=
    fun n hn => hsame n (hns.above_iff.mpr hn).written
  -- the classes above are accepted in both modules, with the same result
  have habove : ∀ n ∈ ns, ∀ a a', m.declaration? n = some a → m'.declaration? n = some a' →
      ∃ new, m.Succeeds hosts options out a new ∧ m'.Succeeds hosts options out' a' new := by
    intro n hn a a' ha ha'
    obtain ⟨new, hs⟩ := hacc n hn a ha
    have haa' : a'.decl = a.decl := by simpa [SameDecl, ha, ha'] using (hagree n hn).symm
    have hup : m.SameAbove m' hosts a.superclass := fun k hk =>
      hsame k ((hns.above_iff.mpr hn).trans_written (meaning_own hosts ha) hk)
    refine ⟨new, hs, ih n hn a ha hup hs.1 haa' ?_ hs.2⟩
    rw [name_of_declaration? ha']
    exact ha'
  constructor
  · refine hns'.attempted_iff.mpr ⟨hd', ?_, fun n hn a' ha' => ?_⟩
    · rw [hdecl]
      exact hplaced
    · obtain ⟨a, ha, -⟩ := SameDecl.exists_declaration? (hagree n hn).symm ha'
      obtain ⟨new, -, hs⟩ := habove n hn a a' ha ha'
      exact ⟨new, hs⟩
  · obtain ⟨ks, index, hks, hshows, hr⟩ := hr
    obtain rfl := hns.unique hks
    refine ⟨ns, index, hns', ?_, hdecl ▸ hr⟩
    have hlineage : out'.lineage hosts d' ns = out.lineage hosts d ns := by
      unfold lineage
      rw [hname, hdecl]
      refine congrArg _ (List.map_congr_left fun n hn => ?_)
      rw [h.sitesOf_eq h' (hagree n hn) (habove n hn)]
    rw [hlineage]
    exact hshows

/-- A class becomes the same in both modules when it has the same classes above. -/
theorem Promotes.statement_eq (hsame : m.SameAbove m' hosts d.superclass) (hdecl : d'.decl = d.decl)
    (hd : m.declaration? d.name = some d) (hd' : m'.declaration? d'.name = some d') :
    out'.statements[d'.position]? = out.statements[d.position]? := by
  by_cases hex : ∃ new, m.Succeeds hosts options out d new
  · obtain ⟨new, hs⟩ := hex
    rw [h.accepted d new hs, h'.accepted d' new (h.tried h' hsame hdecl hd' hs.1 hs.2)]
  · have hsame' : m'.SameAbove m hosts d'.superclass := by
      rw [show d'.superclass = d.superclass from congrArg (·.superclass.map Ident.name) hdecl]
      exact hsame.symm
    have hex' : ¬ ∃ new, m'.Succeeds hosts options out' d' new := by
      rintro ⟨new, hs⟩
      exact hex ⟨new, h'.tried h hsame' hdecl.symm hd hs.1 hs.2⟩
    rw [h.kept_class (mem_of_declaration? hd) hex, h'.kept_class (mem_of_declaration? hd') hex',
      hdecl]

end Tried

/-! ## §6 There is one outcome -/

theorem Before.asymm (h : m.Before hosts d e) : ¬ m.Before hosts e d := by
  rintro ⟨ks', ns', hks', hns', h'⟩
  obtain ⟨ns, ks, hns, hks, h⟩ := h
  rw [hns.unique hns', hks.unique hks'] at h
  omega

instance : Std.Asymm fun t u : Trial => m.Before hosts t.cls u.cls :=
  ⟨fun _ _ => Before.asymm⟩

/-- At most one outcome fits the description. -/
theorem Promotes.unique {result result' : Except (List Error) Report}
    (h : m.Promotes hosts options out result) (h' : m.Promotes hosts options out' result') :
    out = out' ∧ result = result' := by
  have htried : ∀ {d r}, m.Attempted hosts options out d ∧ m.Gives hosts options out d r ↔
      m.Attempted hosts options out' d ∧ m.Gives hosts options out' d r := by
    intro d r
    constructor
    · rintro ⟨ha, hg⟩
      exact h.tried h' (.refl m hosts _) rfl ha.declaration? ha hg
    · rintro ⟨ha, hg⟩
      exact h'.tried h (.refl m hosts _) rfl ha.declaration? ha hg
  constructor
  · have hstatements : out.statements = out'.statements := by
      refine List.ext_getElem? fun i => ?_
      by_cases hex : ∃ d new, m.Succeeds hosts options out d new ∧ d.position = i
      · obtain ⟨d, new, hs, rfl⟩ := hex
        rw [h.accepted d new hs, h'.accepted d new (htried.mp hs)]
      · rw [h.kept i fun d new hs hi => hex ⟨d, new, hs, hi⟩,
          h'.kept i fun d new hs hi => hex ⟨d, new, htried.mpr hs, hi⟩]
    have hspan : out.span = out'.span := h.span.trans h'.span.symm
    cases out
    cases out'
    simp_all
  · obtain ⟨trials, hsched, rfl⟩ := h.result
    obtain ⟨trials', hsched', rfl⟩ := h'.result
    -- the attempts are the same, and their order admits no choice
    have heq : trials = trials' := by
      refine hsched.sorted.eq_of_mem_iff hsched'.sorted fun t => ?_
      rw [hsched.mem_iff, hsched'.mem_iff, htried]
    rw [heq]

end Module

end FieldPromotion
