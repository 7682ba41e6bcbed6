import FieldPromotion.Proofs.Run
import FieldPromotion.Tree.Build
import Mathlib

/-!
# The names of promoted fields

A promoted field never has a name that is in use where it can be seen: not in its own class, and not
in any class above it as that class is in the end. This holds of every class that is changed, also
when there are errors elsewhere.
-/

namespace FieldPromotion.Module

variable {m out : Module} {hosts : List HostClass} {options : Options} {d : Declared}
  {new : Promoted} {result : Except (List Error) Report} {i : Nat} {c : ClassDecl}

/-- `out.AddsFresh hosts c c' new`: the class `c'` of `out` is `c` with the fields `new` put in
between. They have names of their own, which no other field of the class has, and no field of a
class above it. -/
structure AddsFresh (out : Module) (hosts : List HostClass) (c c' : ClassDecl)
    (new : List FieldDecl) : Prop where
  inserted : ∃ pre post, c.fields = pre ++ post ∧ c'.fields = pre ++ new ++ post
  distinct : (new.map (·.name.name)).Nodup
  own : ∀ f ∈ new, ∀ g ∈ c.fields, f.name.name ≠ g.name.name
  above : ∀ n w, out.Above hosts (c'.superclass.map Ident.name) n → out.meaning hosts n = some w →
    ∀ f ∈ new, ∀ g ∈ w.sites, f.name.name ≠ g.name

/-- An accepted class has fresh fields: whatever name is in sight of it is in its index. -/
theorem Succeeds.addsFresh (h : m.Succeeds hosts options out d new) (hheads : m.SameHeads out) :
    ∃ fs, out.AddsFresh hosts d.decl new.decl fs := by
  obtain ⟨ns, index, hns, hshows, hindex⟩ := h.2
  obtain ⟨-, hsup, -⟩ := ClassDecl.promote_head hindex
  obtain ⟨pre, fs, post, hold, hnew, -, hnodup, hnone⟩ := ClassDecl.promote_fields hindex
  have hchain : out.Chain hosts (new.decl.superclass.map Ident.name) ns := by
    rw [hsup]
    exact hheads.chain hns
  refine ⟨fs, ⟨pre, post, hold, hnew⟩, hnodup, ?_, ?_⟩
  · -- its own fields
    intro f hf g hg heq
    have hsight := hshows.get?_eq_none_iff.mp (hnone f hf)
    exact hsight _ List.mem_cons_self g.site (List.mem_map_of_mem hg) heq.symm
  · -- the fields of a class above it
    intro n w hn hw f hf g hg heq
    have hsight := hshows.get?_eq_none_iff.mp (hnone f hf)
    have hmem : (n, out.sitesOf hosts n) ∈ out.lineage hosts d ns := by
      apply List.mem_cons_of_mem
      exact List.mem_map_of_mem (hchain.above_iff.mp hn)
    have hsites : out.sitesOf hosts n = w.sites := by
      rw [sitesOf, hw]
      rfl
    rw [hsites] at hmem
    exact hsight _ hmem g hg heq.symm

theorem addsFresh_nil (out : Module) (hosts : List HostClass) (c : ClassDecl) :
    out.AddsFresh hosts c c [] where
  inserted := ⟨c.fields, [], by simp, by simp⟩
  distinct := List.nodup_nil
  own := by simp
  above := by simp

/-- In the module after promotion, with or without errors, no promoted field of a class has the name
of another field of the class or of a field of a class above it. -/
theorem exists_addsFresh (hosts : List HostClass) (options : Options)
    (hc : m.classAt? i = some c) :
    ∃ c' new, (m.promote (ClassTable.ofHost hosts) options).module.classAt? i = some c' ∧
      (m.promote (ClassTable.ofHost hosts) options).module.AddsFresh hosts c c' new := by
  have h := promotes_promote m hosts options
  by_cases hex : ∃ d new, m.Succeeds hosts options
      (m.promote (ClassTable.ofHost hosts) options).module d new ∧ d.position = i
  · -- an accepted class
    obtain ⟨d, new, hs, rfl⟩ := hex
    obtain ⟨fs, hfs⟩ := hs.addsFresh h.sameHeads
    obtain rfl : d.decl = c := Option.some.inj (hs.1.classAt?.symm.trans hc)
    refine ⟨new.decl, fs, ?_, hfs⟩
    rw [classAt?, h.accepted d new hs]
    rfl
  · -- a class that is kept
    refine ⟨c, [], ?_, addsFresh_nil _ _ _⟩
    rw [classAt?, h.kept i fun d new hs hi => hex ⟨d, new, hs, hi⟩]
    exact hc

/-- A class with a field of its own and an argument field. -/
def button : ClassDecl :=
  { ClassDecl.named "Button" with
    superclass := some { name := "Control" }
    members :=
      [.field (.make .var .priv "icon" none),
       .ctor (.make [(Param.named "text").withModifier (.storage .var)] [])] }

/-- Two classes below a class of the host that is itself below a class of the module. One of them
clashes with a field that is promoted there. -/
def widgets : Module where
  statements :=
    [.classDecl button,
     .classDecl { ClassDecl.named "Widget" with
        members := [.ctor (.make [(Param.named "width").withModifier (.storage .var)] [])] },
     .classDecl { ClassDecl.named "Panel" with
        superclass := some { name := "Control" }
        members := [.ctor (.make [(Param.named "width").withModifier (.storage .var)] [])] }]

/-- The class of the host. -/
def control : HostClass where
  name := "Control"
  superclass := some "Widget"
  fields := [{ name := "theme" }]

theorem exists_addsFresh_button : widgets.classAt? 0 = some button ∧ ∃ c' new,
    (widgets.promote (ClassTable.ofHost [control]) {}).module.classAt? 0 = some c' ∧
      (widgets.promote (ClassTable.ofHost [control]) {}).module.AddsFresh [control] button c' new ∧
      new.length = 1 := by
  have hcount : ((widgets.promote (ClassTable.ofHost [control]) {}).module.classAt? 0).map
      (·.fields.length) = some 2 := by
    cbv
  obtain ⟨c', new, hc', hnew⟩ := exists_addsFresh (m := widgets) (i := 0) [control] {} rfl
  refine ⟨rfl, c', new, hc', hnew, ?_⟩
  -- there was one field, and now there are two
  obtain ⟨pre, post, hold, hfields⟩ := hnew.inserted
  have hold' : pre.length + post.length = 1 := by
    rw [← List.length_append, ← hold]
    rfl
  rw [hc', Option.map_some, Option.some.injEq, hfields, List.length_append,
    List.length_append] at hcount
  omega

end FieldPromotion.Module
