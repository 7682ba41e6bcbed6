import FieldPromotion.Proofs.Roles
import FieldPromotion.Tree.Build

/-!
# Roles by rules

The role of a parameter, or its error, said by one rule for each case: two modifiers of one group come
before everything else, then a parameter without modifiers, then one that has nothing to store, then a
static one. What is left is an argument field. The rules leave no choice, so they describe the role of
every parameter, and the two rules without an error do not look at the order of the modifiers.
-/

namespace FieldPromotion

/-! ## §1 The first conflict -/

theorem Keyword.sameGroup_of_common {k l m : Keyword} (hk : k.sameGroup m = true)
    (hl : l.sameGroup m = true) : k.sameGroup l = true := by
  revert hk hl
  cases k <;> cases l <;> cases m <;> simp [Keyword.sameGroup]

namespace Modifier

/-- `FirstConflict ms a b`: the modifier `b` is the first of `ms` that has one of its own group before
it, and `a` is that one. There is no other, since no two modifiers before `b` are of one group. -/
def FirstConflict (ms : List Modifier) (a b : Modifier) : Prop :=
  ∃ before between after, ms = before ++ a :: between ++ b :: after ∧
    a.keyword.sameGroup b.keyword = true ∧ Apart (before ++ a :: between)

theorem apart_append_singleton {ms : List Modifier} {m : Modifier} : Apart (ms ++ [m]) ↔
    Apart ms ∧ ∀ x ∈ ms, x.keyword.sameGroup m.keyword = false := by
  simp [Apart, List.pairwise_append]

theorem Apart.perm {ms ks : List Modifier} (h : Apart ms) (hperm : ks.Perm ms) : Apart ks := by
  refine (hperm.pairwise_iff ?_).mpr h
  intro x y hxy
  rw [Keyword.sameGroup_comm]
  exact hxy

/-- The scan finds a pair when it gets to a modifier with one of its own group before it, without having
met such a modifier earlier. -/
theorem conflict?_eq_some_iff {seen ms : List Modifier} {a b : Modifier} (hseen : Apart seen) :
    conflict? seen ms = some (a, b) ↔ ∃ pre post, ms = pre ++ b :: post ∧ Apart (seen ++ pre) ∧
      a ∈ seen ++ pre ∧ a.keyword.sameGroup b.keyword = true := by
  induction ms generalizing seen with
  | nil => simp [conflict?]
  | cons m ms ih =>
    rw [conflict?]
    cases hfind : seen.find? (·.keyword.sameGroup m.keyword) with
    | some x =>
      have hx := List.mem_of_find?_eq_some hfind
      have hgroup : x.keyword.sameGroup m.keyword = true := by
        simpa using List.find?_some hfind
      simp only [Option.some.injEq, Prod.mk.injEq]
      constructor
      · intro h
        obtain ⟨rfl, rfl⟩ := h
        exact ⟨[], ms, rfl, by simpa using hseen, by simpa using hx, hgroup⟩
      · intro h
        obtain ⟨pre, post, heq, hpre, ha, hab⟩ := h
        cases pre with
        | nil =>
          -- the scan ends at `m`, and only one modifier before it is of its group
          obtain ⟨rfl, rfl⟩ := List.cons.inj heq
          rw [List.append_nil] at ha
          exact ⟨hseen.eq_of_sameGroup hx ha (Keyword.sameGroup_of_common hgroup hab), rfl⟩
        | cons y pre =>
          -- the scan would go past `m`, which conflicts with `x`
          obtain ⟨rfl, rfl⟩ := List.cons.inj heq
          have hfalse := (List.pairwise_append.mp hpre).2.2 x hx m List.mem_cons_self
          rw [hgroup] at hfalse
          cases hfalse
    | none =>
      have hm : ∀ x ∈ seen, x.keyword.sameGroup m.keyword = false := by
        simpa using hfind
      rw [ih (apart_append_singleton.mpr ⟨hseen, hm⟩)]
      constructor
      · intro h
        obtain ⟨pre, post, rfl, hpre, ha, hab⟩ := h
        rw [List.append_assoc, List.singleton_append] at hpre ha
        exact ⟨m :: pre, post, rfl, hpre, ha, hab⟩
      · intro h
        obtain ⟨pre, post, heq, hpre, ha, hab⟩ := h
        cases pre with
        | nil =>
          obtain ⟨rfl, rfl⟩ := List.cons.inj heq
          rw [hm a (by simpa using ha)] at hab
          cases hab
        | cons y pre =>
          obtain ⟨rfl, rfl⟩ := List.cons.inj heq
          refine ⟨pre, post, rfl, ?_, ?_, hab⟩
          · rw [List.append_assoc, List.singleton_append]
            exact hpre
          · rw [List.append_assoc, List.singleton_append]
            exact ha

/-- The scan finds the first conflict. -/
theorem conflict?_nil_eq_some_iff {ms : List Modifier} {a b : Modifier} :
    conflict? [] ms = some (a, b) ↔ FirstConflict ms a b := by
  rw [conflict?_eq_some_iff List.Pairwise.nil]
  simp only [List.nil_append]
  constructor
  · intro h
    obtain ⟨pre, after, rfl, hpre, ha, hab⟩ := h
    obtain ⟨before, between, rfl⟩ := List.append_of_mem ha
    exact ⟨before, between, after, rfl, hab, hpre⟩
  · intro h
    obtain ⟨before, between, after, rfl, hab, hpre⟩ := h
    exact ⟨before ++ a :: between, after, rfl, hpre, by simp, hab⟩

theorem conflict?_nil_eq_none_iff {ms : List Modifier} : conflict? [] ms = none ↔ Apart ms := by
  rw [conflict?_eq_none_iff]
  simp [Apart]

/-- There is a first conflict exactly if two modifiers are of one group. -/
theorem exists_firstConflict_iff {ms : List Modifier} :
    (∃ a b, FirstConflict ms a b) ↔ ¬ Apart ms := by
  rw [← conflict?_nil_eq_none_iff, ← ne_eq, Option.ne_none_iff_exists']
  simp only [Prod.exists, conflict?_nil_eq_some_iff]

end Modifier

/-! ## §2 The rules -/

/-- `p.Classified result`: one of the rules gives the parameter `p` its role or its error. -/
inductive Param.Classified (p : Param) : Except Error Role → Prop
  /-- Two modifiers are of one group; the first such pair is reported, at the later of the two. -/
  | conflict {a b : Modifier} : Modifier.FirstConflict p.modifiers a b →
      Classified p (.error (.conflictingModifiers p.name.name a.keyword b.keyword b.span))
  | plain : p.modifiers = [] → Classified p (.ok .plain)
  /-- There are modifiers, but neither `var` nor `final`; the first modifier is reported. -/
  | stray {first : Modifier} {rest : List Modifier} : Modifier.Apart p.modifiers →
      p.modifiers = first :: rest → (∀ s, .storage s ∉ p.keywords) →
      Classified p (.error (.modifierWithoutStorage p.name.name first.keyword first.span))
  /-- There is `var` or `final`, and `static`, which is reported. -/
  | static {s : Storage} {m : Modifier} : Modifier.Apart p.modifiers → .storage s ∈ p.keywords →
      m ∈ p.modifiers → m.keyword = .static → Classified p (.error (.staticField p.name.name m.span))
  /-- An argument field has the storage that is written, and the visibility if one is written. -/
  | field {s : Storage} {v : Option Visibility} : Modifier.Apart p.modifiers →
      .storage s ∈ p.keywords → .static ∉ p.keywords →
      (∀ u, v = some u ↔ .visibility u ∈ p.keywords) →
      Classified p (.ok (.field { storage := s, visibility := v }))

namespace Param

variable {p q : Param} {ps : List Param}

/-- What the keywords of one group stand for is found exactly if it is written, as no other keyword of
that group is. -/
theorem findSome?_keyword_eq_some_iff {α : Type} {read : Keyword → Option α} {write : α → Keyword}
    (hread : ∀ k x, read k = some x ↔ k = write x)
    (hgroup : ∀ x y, (write x).sameGroup (write y) = true) (h : Modifier.Apart p.modifiers) {x : α} :
    p.modifiers.findSome? (fun m => read m.keyword) = some x ↔ write x ∈ p.keywords := by
  have hwritten : ∀ y, p.modifiers.findSome? (fun m => read m.keyword) = some y →
      ∃ m ∈ p.modifiers, m.keyword = write y := by
    intro y hy
    obtain ⟨m, hm, hkey⟩ := List.exists_of_findSome?_eq_some hy
    exact ⟨m, hm, (hread _ _).mp hkey⟩
  constructor
  · intro hx
    exact List.mem_map.mpr (hwritten x hx)
  · intro hx
    obtain ⟨a, ha, hkey⟩ := List.mem_map.mp hx
    have hsome : p.modifiers.findSome? (fun m => read m.keyword) ≠ none := by
      intro hnone
      have := List.findSome?_eq_none_iff.mp hnone a ha
      rw [(hread _ _).mpr hkey] at this
      cases this
    obtain ⟨y, hy⟩ := Option.ne_none_iff_exists'.mp hsome
    -- whatever is found is of the same group
    obtain ⟨b, hb, hkey'⟩ := hwritten y hy
    have hab : a = b := by
      apply h.eq_of_sameGroup ha hb
      rw [hkey, hkey']
      exact hgroup x y
    rw [hy, ← (hread _ _).mpr hkey', ← hab, (hread _ _).mpr hkey]

theorem storage?_eq_some_iff {s : Storage} (h : Modifier.Apart p.modifiers) :
    p.modifiers.findSome? (·.keyword.storage?) = some s ↔ .storage s ∈ p.keywords :=
  findSome?_keyword_eq_some_iff (fun _ _ => Keyword.storage?_eq_some_iff) (fun _ _ => rfl) h

theorem visibility?_eq_some_iff {v : Visibility} (h : Modifier.Apart p.modifiers) :
    p.modifiers.findSome? (·.keyword.visibility?) = some v ↔ .visibility v ∈ p.keywords :=
  findSome?_keyword_eq_some_iff (fun _ _ => Keyword.visibility?_eq_some_iff) (fun _ _ => rfl) h

/-- Without two modifiers of one group there is one `static` at most. -/
theorem find?_static_eq_some_iff {m : Modifier} (h : Modifier.Apart p.modifiers) :
    p.modifiers.find? (·.keyword == .static) = some m ↔ m ∈ p.modifiers ∧ m.keyword = .static := by
  constructor
  · intro hm
    exact ⟨List.mem_of_find?_eq_some hm, by simpa using List.find?_some hm⟩
  · intro hm
    obtain ⟨hmem, hkey⟩ := hm
    cases hfind : p.modifiers.find? (·.keyword == .static) with
    | none =>
      have hnone := List.find?_eq_none.mp hfind m hmem
      rw [hkey] at hnone
      exact absurd rfl hnone
    | some x =>
      have hx : x.keyword = .static := by simpa using List.find?_some hfind
      rw [h.eq_of_sameGroup (List.mem_of_find?_eq_some hfind) hmem (by rw [hx, hkey]; rfl)]

theorem static_mem_keywords : .static ∈ p.keywords ↔ ∃ m ∈ p.modifiers, m.keyword = .static :=
  List.mem_map

/-! ## §3 The rules and the role -/

/-- Some rule gives the role. -/
theorem classified_role (p : Param) : p.Classified p.role := by
  rw [role_eq_searchedRole]
  unfold searchedRole
  -- the tests are made in the order of the cases: conflict, storage, `static`
  cases hconflict : Modifier.conflict? [] p.modifiers with
  | some pair =>
    obtain ⟨a, b⟩ := pair
    exact .conflict (Modifier.conflict?_nil_eq_some_iff.mp hconflict)
  | none =>
    have hapart := Modifier.conflict?_nil_eq_none_iff.mp hconflict
    cases hstorage : p.modifiers.findSome? (·.keyword.storage?) with
    | none =>
      cases hmods : p.modifiers with
      | nil => exact .plain hmods
      | cons first rest =>
        apply Classified.stray hapart hmods
        intro s hs
        rw [(storage?_eq_some_iff hapart).mpr hs] at hstorage
        cases hstorage
    | some s =>
      have hs := (storage?_eq_some_iff hapart).mp hstorage
      cases hstatic : p.modifiers.find? (·.keyword == .static) with
      | some m =>
        obtain ⟨hm, hkey⟩ := (find?_static_eq_some_iff hapart).mp hstatic
        exact .static hapart hs hm hkey
      | none =>
        apply Classified.field hapart hs
        · rw [static_mem_keywords]
          simpa using hstatic
        · intro u
          exact visibility?_eq_some_iff hapart

/-- Only one rule gives a result. -/
theorem Classified.role_eq {r : Except Error Role} (h : p.Classified r) : p.role = r := by
  rw [role_eq_searchedRole]
  unfold searchedRole
  cases h with
  | conflict hab => rw [Modifier.conflict?_nil_eq_some_iff.mpr hab]
  | plain hnil =>
    rw [hnil]
    rfl
  | stray hapart hmods hnone =>
    -- no modifier gives a storage, because none of the storages is among the keywords
    have hstorage : p.modifiers.findSome? (·.keyword.storage?) = none := by
      rw [Option.eq_none_iff_forall_ne_some]
      intro s hs
      exact hnone s ((storage?_eq_some_iff hapart).mp hs)
    rw [Modifier.conflict?_nil_eq_none_iff.mpr hapart, hstorage, hmods]
  | static hapart hs hm hkey =>
    rw [Modifier.conflict?_nil_eq_none_iff.mpr hapart, (storage?_eq_some_iff hapart).mpr hs,
      (find?_static_eq_some_iff hapart).mpr ⟨hm, hkey⟩]
  | @field s v hapart hs hstatic hv =>
    have hfind : p.modifiers.find? (·.keyword == .static) = none := by
      rw [static_mem_keywords] at hstatic
      simpa using hstatic
    have hvisible : p.modifiers.findSome? (·.keyword.visibility?) = v := by
      apply Option.ext
      intro u
      rw [visibility?_eq_some_iff hapart, hv u]
    rw [Modifier.conflict?_nil_eq_none_iff.mpr hapart, (storage?_eq_some_iff hapart).mpr hs, hfind,
      hvisible]

theorem role_eq_iff_classified {r : Except Error Role} : p.role = r ↔ p.Classified r := by
  constructor
  · intro h
    rw [← h]
    exact p.classified_role
  · exact Classified.role_eq

/-- The rules without an error do not look at the order of modifiers. -/
theorem Classified.perm {r : Role} (h : p.Classified (.ok r)) (hperm : q.modifiers.Perm p.modifiers) :
    q.Classified (.ok r) := by
  -- everything about a role is said by which keywords are there, not by where they stand
  have hkey : ∀ k, k ∈ q.keywords ↔ k ∈ p.keywords := by
    intro k
    exact (hperm.map Modifier.keyword).mem_iff
  cases h with
  | plain hnil =>
    apply Classified.plain
    rw [hnil] at hperm
    exact hperm.eq_nil
  | field hapart hs hstatic hv =>
    apply Classified.field (hapart.perm hperm)
    · rw [hkey]
      exact hs
    · rw [hkey]
      exact hstatic
    · intro u
      rw [hkey]
      exact hv u

/-! ## §4 All parameters -/

theorem roleError?_eq_some_iff {e : Error} : p.roleError? = some e ↔ p.role = .error e := by
  unfold roleError?
  cases p.role <;> simp

/-- The parameters without a role, each with its error. -/
theorem forall₂_roleError (ps : List Param) :
    List.Forall₂ (fun p e => p.role = .error e) (ps.filter fun p => !p.role.isOk)
      (ps.filterMap Param.roleError?) := by
  have hfilter : (fun p : Param => !p.role.isOk) = fun p => p.roleError?.isSome := by
    funext p
    unfold roleError?
    cases p.role <;> rfl
  rw [hfilter]
  simp only [← roleError?_eq_some_iff]
  exact forall₂_filterMap Param.roleError? ps

theorem roles_eq_error_iff_filterMap {errors : List Error} : Param.roles ps = .error errors ↔
    ps.filterMap Param.roleError? ≠ [] ∧ ps.filterMap Param.roleError? = errors := by
  unfold Param.roles
  cases ps.filterMap Param.roleError? with
  | nil => simp
  | cons e es => simp

/-- The errors of a list of parameters are those of the single parameters, in their order. -/
theorem roles_eq_error_iff {errors : List Error} : Param.roles ps = .error errors ↔
    (∃ p ∈ ps, ∃ e, p.role = .error e) ∧
      List.Forall₂ (fun p e => p.role = .error e) (ps.filter fun p => !p.role.isOk) errors := by
  have hsome : (∃ p ∈ ps, ∃ e, p.role = .error e) ↔ ps.filterMap Param.roleError? ≠ [] := by
    simp only [← roleError?_eq_some_iff, ne_eq, List.filterMap_eq_nil_iff, not_forall,
      ← Option.ne_none_iff_exists', exists_prop]
  rw [roles_eq_error_iff_filterMap, hsome]
  apply and_congr_right
  intro _
  constructor
  · intro h
    rw [← h]
    exact forall₂_roleError ps
  · intro h
    -- a parameter has one error at most
    have hunique : Relator.RightUnique fun (p : Param) e => p.role = .error e := by
      intro p e e' he he'
      exact Except.error.inj (he.symm.trans he')
    exact List.right_unique_forall₂' hunique (forall₂_roleError ps) h

/-! ## §5 Roles -/

/-- The role of every parameter is the one that the rules give. There is a first conflict exactly if two
modifiers are of one group. A role, unlike an error, stays the same when the modifiers are put in another
order. A list of parameters has roles when each of them has one, and else the errors of those that have
none. -/
theorem role_by_rules (p : Param) :
    (∀ r, p.role = r ↔ p.Classified r) ∧
    ((∃ a b, Modifier.FirstConflict p.modifiers a b) ↔ ¬ Modifier.Apart p.modifiers) ∧
    (∀ (q : Param) (r : Role), q.modifiers.Perm p.modifiers → p.role = .ok r → q.role = .ok r) ∧
    ∀ ps, (∀ rs, Param.roles ps = .ok rs ↔ List.Forall₂ (fun p r => p.role = .ok r) ps rs) ∧
      ∀ errors, Param.roles ps = .error errors ↔ (∃ p ∈ ps, ∃ e, p.role = .error e) ∧
        List.Forall₂ (fun p e => p.role = .error e) (ps.filter fun p => !p.role.isOk) errors := by
  refine ⟨fun _ => role_eq_iff_classified, Modifier.exists_firstConflict_iff, ?_, ?_⟩
  · intro q r hperm hrole
    exact ((role_eq_iff_classified.mp hrole).perm hperm).role_eq
  · intro ps
    exact ⟨fun _ => roles_eq_ok_iff, fun _ => roles_eq_error_iff⟩

/-- The parameter `public final size`. -/
def publicFinal : Param :=
  ((named "size").withModifier (.visibility .pub)).withModifier (.storage .final)

/-- The parameter `final public size`. -/
def finalPublic : Param :=
  ((named "size").withModifier (.storage .final)).withModifier (.visibility .pub)

theorem role_finalPublic :
    publicFinal.role = .ok (.field { storage := .final, visibility := some .pub }) ∧
      finalPublic.modifiers.Perm publicFinal.modifiers ∧
      finalPublic.role = .ok (.field { storage := .final, visibility := some .pub }) := by
  have hrole : publicFinal.role = .ok (.field { storage := .final, visibility := some .pub }) := rfl
  have hperm : finalPublic.modifiers.Perm publicFinal.modifiers := List.Perm.swap _ _ _
  exact ⟨hrole, hperm, (role_by_rules publicFinal).2.2.1 finalPublic _ hperm hrole⟩

end Param

end FieldPromotion
