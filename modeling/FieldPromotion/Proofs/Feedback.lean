import FieldPromotion.Command.Run
import FieldPromotion.Proofs.Idempotence
import FieldPromotion.Proofs.TreeDepth

/-!
# What is written can be read again

Promotion moves annotations and types from parameters to fields, and puts assignments into bodies.
Fields stand no deeper in a class than parameters do, and assignments lie at a fixed depth. So the
JSON form of a promoted module is within the limit on nesting when that of the module is.
-/

namespace FieldPromotion

open Json

variable {P : Float → Prop} {n : Nat}

/-! ## §1 Where the parts of a module lie -/

@[simp] theorem Span.fits (s : Span) : s.toJson.Fits P (n + 1) := by
  simp [Span.toJson]

@[simp] theorem Ident.fits (id : Ident) : id.toJson.Fits P (n + 2) := by
  simp [Ident.toJson]

theorem Block.fits_iff {b : Block} :
    b.toJson.Fits P (n + 2) ↔ ∀ s ∈ b.statements, s.toJson.Fits P n := by
  obtain ⟨statements, span⟩ := b
  simp [Block.toJson, Stmt.listToJson_eq]

theorem CtorDecl.fits_iff {c : CtorDecl} : c.toJson.Fits P (n + 3) ↔
    (∀ p ∈ c.params, p.toJson.Fits P (n + 1)) ∧ ∀ s ∈ c.body.statements, s.toJson.Fits P n := by
  obtain ⟨params, body, span⟩ := c
  simp [CtorDecl.toJson, Block.fits_iff]

theorem ClassDecl.fits_iff {c : ClassDecl} : c.toJson.Fits P (n + 3) ↔
    (∀ a ∈ c.metadata, a.toJson.Fits P (n + 1)) ∧ ∀ x ∈ c.members, x.toJson.Fits P (n + 1) := by
  obtain ⟨metadata, isAbstract, name, superclass, members, span⟩ := c
  simp [ClassDecl.toJson, Member.listToJson_eq]

theorem Module.fits_iff {m : Module} :
    m.toJson.Fits P (n + 2) ↔ ∀ s ∈ m.statements, s.toJson.Fits P n := by
  simp [Module.toJson, Stmt.listToJson_eq]

/-! ## §2 Promotion keeps to the depth -/

/-- A field is no deeper than its parameter. -/
theorem Param.fits_toField {p : Param} (h : p.toJson.Fits P (n + 1)) (c : Candidate)
    (visibility : Visibility) : (p.toField c visibility).toJson.Fits P (n + 1) := by
  simp only [Param.toJson, FieldDecl.toJson, fits_obj, List.forall_mem_cons] at h ⊢
  obtain ⟨hmetadata, -, hname, htype, -, hspan, -⟩ := h
  exact ⟨hmetadata, fits_str _, fits_str _, fits_bool _, hname, htype, fits_null, hspan, by simp⟩

theorem Param.fits_stripped {p : Param} (h : p.toJson.Fits P (n + 2)) :
    p.stripped.toJson.Fits P (n + 2) := by
  simp only [Param.toJson, fits_obj, List.forall_mem_cons] at h ⊢
  obtain ⟨-, -, hname, htype, hdefault, hspan, -⟩ := h
  exact ⟨by simp [Param.stripped], by simp [Param.stripped], hname, htype, hdefault, hspan, by simp⟩

theorem Param.fits_afterPromotion {p : Param} (h : p.toJson.Fits P (n + 2)) (r : Role) :
    (p.afterPromotion r).toJson.Fits P (n + 2) := by
  cases r with
  | plain => exact h
  | field c => exact fits_stripped h

/-- An assignment has eight levels, whatever the parameter is called. -/
theorem fits_fieldAssignment (p : Ident) : (fieldAssignment p).toJson.Fits P (n + 8) := by
  simp [fieldAssignment, Stmt.toJson, Expr.toJson]

theorem mem_insertAt {α : Type} {xs new : List α} {i : Nat} {x : α} :
    x ∈ insertAt xs i new ↔ x ∈ xs ∨ x ∈ new := by
  conv_rhs => rw [← List.take_append_drop i xs]
  simp only [insertAt, List.mem_append]
  tauto

theorem CtorDecl.fits_promote {ctor : CtorDecl} (h : ctor.toJson.Fits P (n + 11)) (roles : List Role)
    (fields : List FieldDecl) :
    (ctor.promote (ctor.params.zip roles) fields).toJson.Fits P (n + 11) := by
  obtain ⟨hparams, hbody⟩ := CtorDecl.fits_iff.mp h
  refine CtorDecl.fits_iff.mpr ⟨?_, ?_⟩
  · intro p hp
    obtain ⟨⟨q, r⟩, hq, rfl⟩ := List.mem_map.mp hp
    exact Param.fits_afterPromotion (hparams q (List.of_mem_zip hq).1) r
  · intro s hs
    rcases mem_insertAt.mp hs with hs | hs
    · exact hbody s hs
    · obtain ⟨id, -, rfl⟩ := List.mem_map.mp hs
      exact fits_fieldAssignment id

/-- A class that is accepted fits where it fitted before, if that leaves room for assignments. -/
theorem ClassDecl.fits_promote {c : ClassDecl} {index : FieldIndex} {options : Options} {new : Promoted}
    (h : c.promote index options = .ok new) (hc : c.toJson.Fits P (n + 14)) :
    new.decl.toJson.Fits P (n + 14) := by
  rcases ClassDecl.promote_eq_ok_iff.mp h with ⟨-, rfl⟩ | ⟨ctor, roles, hctors, -, -, rfl⟩
  · exact hc
  obtain ⟨hmetadata, hmembers⟩ := ClassDecl.fits_iff.mp hc
  have hctor : ctor.toJson.Fits P (n + 11) := by
    obtain ⟨x, hx, hctor⟩ := List.mem_filterMap.mp (hctors ▸ List.mem_cons_self : ctor ∈ c.ctors)
    have hfits := hmembers x hx
    cases x with
    | ctor d =>
      cases hctor
      simpa [Member.toJson] using hfits
    | field d => cases hctor
    | method d => cases hctor
  refine ClassDecl.fits_iff.mpr ⟨hmetadata, ?_⟩
  intro x hx
  rcases mem_insertAt.mp hx with hx | hx
  · obtain ⟨y, hy, rfl⟩ := List.mem_map.mp hx
    cases y with
    | ctor d => simpa [Member.withCtor, Member.toJson] using CtorDecl.fits_promote hctor roles _
    | field d => exact hmembers _ hy
    | method d => exact hmembers _ hy
  · obtain ⟨f, hf, rfl⟩ := List.mem_map.mp hx
    obtain ⟨⟨p, r⟩, hp, hf⟩ := List.mem_filterMap.mp hf
    obtain ⟨candidate, -, rfl⟩ := Option.map_eq_some_iff.mp hf
    -- A parameter lies two levels deeper than the members, where its field stands.
    have hparam := (CtorDecl.fits_iff.mp hctor).1 p (List.of_mem_zip hp).1
    have hfield := (Param.fits_toField hparam candidate options.defaultVisibility).mono
      (show n + 9 ≤ n + 11 by omega)
    simpa [Member.toJson] using hfield

namespace Module

variable {m out : Module} {hosts : List HostClass} {options : Options}
  {result : Except (List Error) Report}

/-- Every statement of the outcome is one of the module or an accepted class in its place. -/
theorem Promotes.fits (h : m.Promotes hosts options out result) (hm : m.toJson.Fits P (n + 17)) :
    out.toJson.Fits P (n + 17) := by
  have hstatements := Module.fits_iff.mp hm
  refine Module.fits_iff.mpr fun s hs => ?_
  obtain ⟨i, hi⟩ := List.mem_iff_getElem?.mp hs
  by_cases hex : ∃ d new, m.Succeeds hosts options out d new ∧ d.position = i
  · obtain ⟨d, new, hd, rfl⟩ := hex
    obtain ⟨index, hpromote⟩ := hd.2.promote
    have hold := hstatements _ (List.mem_of_getElem? (statement_of_classAt? hd.1.classAt?))
    rw [h.accepted d new hd, Option.some.injEq] at hi
    subst hi
    simp only [Stmt.toJson, fits_obj, List.forall_mem_singleton] at hold ⊢
    exact ClassDecl.fits_promote hpromote hold
  · rw [h.kept i fun d new hd hi => hex ⟨d, new, hd, hi⟩] at hi
    exact hstatements s (List.mem_of_getElem? hi)

/-- The depth of the outcome is that of the module or of an assignment, and its doubles are those of
the module. -/
theorem Promotes.depth_le (h : m.Promotes hosts options out result) :
    out.toJson.depth ≤ max m.toJson.depth 17 ∧ ∀ x ∈ out.toJson.floats, x ∈ m.toJson.floats := by
  obtain ⟨n, hn⟩ := Nat.exists_eq_add_of_le' (Nat.le_max_right m.toJson.depth 17)
  rw [hn]
  exact h.fits ((fits_self m.toJson).mono (hn ▸ Nat.le_max_left _ _))

end Module

/-! ## §3 Units -/

@[simp] theorem Json.Field.key_defaulting {α : Type} (key : String) (d : Decoder α) (value : α) :
    (Field.defaulting key d value).key = key := rfl

namespace SourceUnit

theorem depth_toJson (u : SourceUnit) : u.toJson.depth = u.module.toJson.depth + 1 := by
  obtain ⟨name, source, m⟩ := u
  cases source <;> simp [toJson, Json.ofOption, depth, depthEntries]

theorem floats_toJson (u : SourceUnit) : u.toJson.floats = u.module.toJson.floats := by
  obtain ⟨name, source, m⟩ := u
  cases source <;> simp [toJson, Json.ofOption, floats, floatsEntries]

theorem reads (u : SourceUnit) (n : Nat) : decoder.Reads n u.toJson u :=
  .record (.cons (Decoder.reads_string u.name) <|
    .cons (.ofOption Decoder.notNull_string fun s _ => Decoder.reads_string s) <|
    .cons (u.module.reads n) .nil) (by simp) rfl

theorem bounds : decoder.Bounds toJson := by
  have hsource : ∀ source : Option String, (Field.defaulting "source"
      (Decoder.optional Decoder.string) none).absent = some source ∨ (Field.defaulting "source"
      (Decoder.optional Decoder.string) none).short = some source →
      (Json.ofOption Json.str source).depth = 0 := by
    rintro source _
    cases source <;> rfl
  exact .record (.required Decoder.bounds_string <| .cons (.optional Decoder.bounds_string) hsource <|
    .required Module.bounds .nil) fun _ => rfl

/-- The text of a unit is read back, in either layout, if its module is not nested too deep. -/
theorem ofText_render {u : SourceUnit} (hdepth : u.module.toJson.depth < Decoder.maxDepth)
    (hfloats : ∀ x ∈ u.module.toJson.floats, ReadsBack x) (style : Style) :
    ofText (u.toJson.render style) = .ok u :=
  (u.reads _).read_render (u.floats_toJson ▸ hfloats) (u.depth_toJson ▸ hdepth) style

/-- The module of a unit that was read leaves a level for the unit itself. -/
theorem depth_lt_of_ofText {text : String} {u : SourceUnit} (h : ofText text = .ok u) :
    u.module.toJson.depth < Decoder.maxDepth := by
  have hbound := bounds _ _ (Decoder.yields_of_read h)
  rwa [depth_toJson] at hbound

/-- The tree that the command prints is the text of the promoted module. -/
theorem stdout_process {i : Command.Invocation} (hverb : i.verb = .desugar)
    (hemission : i.emission = .tree) (ink : Ink) (options : Options) (u : SourceUnit) {report : Report}
    (h : (u.module.promote {} options).result = .ok report) :
    (i.process ink options u).stdout =
      (u.module.promote {} options).module.toJson.pretty ++ "\n" := by
  simp only [Command.Invocation.process, h, Command.Invocation.success, hverb, hemission]

/-- What is written after promotion can be fed back. Whatever text a unit was read from, the promoted
module is nested no deeper than the module was, or than an assignment lies. So it is read back from
its text, alone and in any unit. If all went well, this holds for what the command prints, and
promoting the module again succeeds and changes nothing. -/
theorem read_promote {text : String} {u : SourceUnit} (hu : ofText text = .ok u)
    (hfloats : ∀ x ∈ u.module.toJson.floats, ReadsBack x) (options : Options) :
    let outcome := u.module.promote {} options
    outcome.module.toJson.depth ≤ max u.module.toJson.depth 17 ∧
    (∀ style, Module.decoder.read (outcome.module.toJson.render style) = .ok outcome.module) ∧
    (∀ name source style, ofText ((mk name source outcome.module).toJson.render style) =
      .ok (mk name source outcome.module)) ∧
    ∀ report, outcome.result = .ok report →
      (∀ (i : Command.Invocation) (ink : Ink), i.verb = .desugar → i.emission = .tree →
        Module.decoder.read (i.process ink options u).stdout = .ok outcome.module) ∧
      ∀ options', (outcome.module.promote {} options').module = outcome.module ∧
        (outcome.module.promote {} options').result = .ok report.cleared := by
  intro outcome
  have hout : u.module.Promotes [] options outcome.module outcome.result :=
    u.module.promotes_promote [] options
  obtain ⟨hdepth, hmem⟩ := hout.depth_le
  -- reading ends at a depth of 127, which neither the old module nor anything new in it comes to
  have hlt : outcome.module.toJson.depth < Decoder.maxDepth :=
    hdepth.trans_lt (max_lt (depth_lt_of_ofText hu) (by decide))
  -- promotion makes no doubles, so those in the new module were in the old one
  have hback : ∀ x ∈ outcome.module.toJson.floats, ReadsBack x := fun x hx => hfloats x (hmem x hx)
  refine ⟨hdepth, fun style => ?_, fun name source style => ?_, fun report hreport => ⟨?_, ?_⟩⟩
  · exact (outcome.module.reads _).read_render hback hlt.le style
  · exact ofText_render hlt hback style
  · intro i ink hverb hemission
    rw [stdout_process hverb hemission ink options u hreport]
    exact (outcome.module.reads _).read_render_append hback hlt.le .pretty (by simp [isBlank])
  · intro options'
    obtain ⟨hmodule, hresult⟩ :=
      (outcome.module.promotes_promote [] options').unique (hout.again options')
    rw [hreport] at hresult
    exact ⟨hmodule, hresult⟩

/-- A class whose argument field has an annotation, a type and a default value. -/
def boiler : SourceUnit where
  name := "Boiler.hx"
  source := some "@:range(0.5, 1e22) var pressure: Array<Float> = 1.5\n"
  module :=
    { statements :=
        [.classDecl
          ⟨[], false, { name := "Boiler" }, none,
            [.ctor ⟨[{ ((Param.named "pressure").withModifier (.storage .var)).withMetadata
                  { name := { name := "range" }, args := [.float 0.5 {}, .float 1e22 {}] } with
                type := some (.applied { name := "Array" } [.primitive .float {}] {})
                defaultValue := some (.float 1.5 {}) }], ⟨[], {}⟩, {}⟩],
            {}⟩] }

theorem read_promote_boiler :
    ofText boiler.toJson.compact = .ok boiler ∧
    (∀ x ∈ boiler.module.toJson.floats, ReadsBack x) ∧
    (boiler.module.promote {} {}).module.toJson.depth ≤ max boiler.module.toJson.depth 17 ∧
    Module.decoder.read (boiler.module.promote {} {}).module.toJson.pretty =
      .ok (boiler.module.promote {} {}).module ∧
    ∃ report, (boiler.module.promote {} {}).result = .ok report ∧ report.fieldCount = 1 ∧
      ((boiler.module.promote {} {}).module.promote {} {}).result = .ok report.cleared := by
  have hfloats : ∀ x ∈ boiler.module.toJson.floats, ReadsBack x := by decide +kernel
  have hread : ofText boiler.toJson.compact = .ok boiler :=
    ofText_render (by decide) hfloats .compact
  have hresult : (boiler.module.promote {} {}).result = .ok
      { classes := [{ cls := "Boiler", fields :=
        [{ name := "pressure", storage := .var, visibility := .priv, span := {} }] }] } := by decide +kernel
  obtain ⟨hdepth, hmodule, -, hagain⟩ := read_promote hread hfloats {}
  exact ⟨hread, hfloats, hdepth, hmodule .pretty, _, hresult, rfl, ((hagain _ hresult).2 {}).2⟩

end SourceUnit

end FieldPromotion
