import FieldPromotion.Proofs.JsonDecoding

/-!
# How deep decoded values are

`d.Yields levels a` says that the decoder `d` gives `a` for some draft when it may enter `levels`
levels. `d.Bounds f` says that whatever `d` yields is encoded by `f` with no more levels than `d` was
allowed to enter, so that the encoding can be read under the same limit. The decoders that are built
of others keep to this when these do.
-/

namespace FieldPromotion.Json

/-! ## §1 Depth and doubles of composite values -/

/-- A bound on the depth of an object is one on the depth of each entry. -/
theorem depthEntries_le_iff {entries : List (String × Json)} {n : Nat} :
    depthEntries entries ≤ n ↔ ∀ e ∈ entries, e.2.depth ≤ n := by
  induction entries with
  | nil => simp [depthEntries]
  | cons e entries ih => simp [depthEntries, ih]

/-- The doubles of an object are those of its entries. -/
theorem mem_floatsEntries {entries : List (String × Json)} {x : Float} :
    x ∈ floatsEntries entries ↔ ∃ e ∈ entries, x ∈ e.2.floats := by
  induction entries with
  | nil => simp [floatsEntries]
  | cons e entries ih => simp [floatsEntries, ih]

/-- The value is nested at most `n` deep, and its doubles are as `P` says. -/
def Fits (P : Float → Prop) (n : Nat) (j : Json) : Prop :=
  j.depth ≤ n ∧ ∀ x ∈ j.floats, P x

section Fits

variable {P : Float → Prop} {n m : Nat} {j : Json}

/-- What fits into a number of levels fits into more. -/
theorem Fits.mono (h : j.Fits P n) (hm : n ≤ m) : j.Fits P m :=
  ⟨h.1.trans hm, h.2⟩

/-- Every value fits its own depth and doubles. -/
theorem fits_self (j : Json) : j.Fits (· ∈ j.floats) j.depth :=
  ⟨le_rfl, fun _ h => h⟩

@[simp] theorem fits_null : Json.null.Fits P n :=
  ⟨Nat.zero_le _, nofun⟩

@[simp] theorem fits_bool (b : Bool) : (Json.bool b).Fits P n :=
  ⟨Nat.zero_le _, nofun⟩

@[simp] theorem fits_str (s : String) : (Json.str s).Fits P n :=
  ⟨Nat.zero_le _, nofun⟩

@[simp] theorem fits_nat (k : Nat) : (Json.nat k).Fits P n :=
  ⟨Nat.zero_le _, nofun⟩

@[simp] theorem fits_arr {items : List Json} :
    (Json.arr items).Fits P (n + 1) ↔ ∀ j ∈ items, j.Fits P n := by
  simp only [Fits, depth, floats, Nat.add_le_add_iff_right, Decoder.depthItems_le_iff,
    Decoder.mem_floatsItems]
  constructor
  · rintro ⟨hdepth, hfloats⟩ j hj
    exact ⟨hdepth j hj, fun x hx => hfloats x ⟨j, hj, hx⟩⟩
  · intro h
    refine ⟨fun j hj => (h j hj).1, ?_⟩
    rintro x ⟨j, hj, hx⟩
    exact (h j hj).2 x hx

@[simp] theorem fits_obj {entries : List (String × Json)} :
    (Json.obj entries).Fits P (n + 1) ↔ ∀ e ∈ entries, e.2.Fits P n := by
  simp only [Fits, depth, floats, Nat.add_le_add_iff_right, depthEntries_le_iff, mem_floatsEntries]
  constructor
  · rintro ⟨hdepth, hfloats⟩ e he
    exact ⟨hdepth e he, fun x hx => hfloats x ⟨e, he, hx⟩⟩
  · intro h
    refine ⟨fun e he => (h e he).1, ?_⟩
    rintro x ⟨e, he, hx⟩
    exact (h e he).2 x hx

@[simp] theorem fits_ofList {α : Type} {f : α → Json} {as : List α} :
    (Json.ofList f as).Fits P (n + 1) ↔ ∀ a ∈ as, (f a).Fits P n := by
  simp [Json.ofList]

@[simp] theorem fits_ofOption {α : Type} {f : α → Json} {o : Option α} :
    (Json.ofOption f o).Fits P n ↔ ∀ a ∈ o, (f a).Fits P n := by
  cases o <;> simp [Json.ofOption]

end Fits

/-! ## §2 What a decoder may yield -/

theorem map_eq_ok_iff {ε α β : Type} {x : Except ε α} {f : α → β} {b : β} :
    x.map f = .ok b ↔ ∃ a, x = .ok a ∧ f a = b := by
  cases x <;> simp [Except.map]

theorem bind_eq_ok_iff {ε α β : Type} {x : Except ε α} {f : α → Except ε β} {b : β} :
    (x >>= f) = .ok b ↔ ∃ a, x = .ok a ∧ f a = .ok b := by
  cases x <;> simp [bind, Except.bind]

/-- A mismatch is no result. -/
theorem expected_ne_ok {α : Type} (what : String) (draft : Draft) (a : α) :
    expected what draft ≠ .ok a := by
  unfold expected
  split <;> nofun

/-- The decoder gives `a` for some draft. -/
def Decoder.Yields {α : Type} (d : Decoder α) (levels : Nat) (a : α) : Prop :=
  ∃ draft, d levels draft = .ok a

/-- What is read from a text is yielded within the limit on nesting. -/
theorem Decoder.yields_of_read {α : Type} {d : Decoder α} {text : String} {a : α}
    (h : d.read text = .ok a) : d.Yields maxDepth a := by
  simp only [read] at h
  split at h
  · cases h
  · rename_i b hread
    split at h
    · cases h
    · split at h
      · cases h
        exact ⟨_, hread⟩
      · cases h

namespace Fields

/-- Each field has a value that its decoder yields, or the value it has when it is left out. -/
def Yields (levels : Nat) : {αs : List Type} → Fields αs → Values αs → Prop
  | _, .nil, _ => True
  | _, .cons field rest, (a, values) =>
    (field.decode.Yields levels a ∨ field.absent = some a ∨ field.short = some a) ∧
      rest.Yields levels values

/-- The values found so far are yielded by the decoders of their fields. -/
def Filled (levels : Nat) : {αs : List Type} → Fields αs → Slots αs → Prop
  | _, .nil, _ => True
  | _, .cons field rest, (slot, slots) =>
    (∀ a ∈ slot, field.decode.Yields levels a) ∧ rest.Filled levels slots

variable {levels : Nat} {αs : List Type} {ending : Ending} {strict : Bool}

theorem filled_empty (fields : Fields αs) : fields.Filled levels (Slots.empty αs) := by
  induction fields with
  | nil => trivial
  | cons field rest ih => exact ⟨nofun, ih⟩

/-- One more entry keeps the slots filled as they should be. -/
theorem Filled.fill {fields : Fields αs} {key : String} {draft : Draft} {slots slots' : Slots αs}
    (hslots : fields.Filled levels slots)
    (h : fields.fill levels key draft slots = some (.ok slots')) : fields.Filled levels slots' := by
  induction fields with
  | nil => cases h
  | cons field rest ih =>
    obtain ⟨slot, slots⟩ := slots
    simp only [Fields.fill] at h
    split at h
    · -- the entry is for this field, which must not have a value yet
      split at h
      · cases h
      · obtain ⟨a, hread, rfl⟩ := map_eq_ok_iff.mp (Option.some.inj h)
        refine ⟨?_, hslots.2⟩
        rintro _ ⟨⟩
        exact ⟨draft, hread⟩
    · -- the entry is for one of the others, if for any
      obtain ⟨r, hfill, hr⟩ := Option.map_eq_some_iff.mp h
      obtain ⟨new, rfl, rfl⟩ := map_eq_ok_iff.mp hr
      exact ⟨hslots.1, ih hslots.2 hfill⟩

/-- The values of a record are those in its slots, and those filled in for the slots that stay
empty. -/
theorem Filled.finish {fields : Fields αs} {slots : Slots αs} {values : Values αs}
    (hslots : fields.Filled levels slots) (h : fields.finish slots = .ok values) :
    fields.Yields levels values := by
  induction fields with
  | nil => trivial
  | cons field rest ih =>
    obtain ⟨slot, slots⟩ := slots
    simp only [Fields.finish] at h
    split at h
    · cases h
    · rename_i a hvalue
      obtain ⟨as, hrest, rfl⟩ := map_eq_ok_iff.mp h
      refine ⟨?_, ih hslots.2 hrest⟩
      -- what is not found is filled in
      rcases Option.or_eq_some_iff.mp hvalue with hfound | ⟨-, habsent⟩
      · exact .inl (hslots.1 a hfound)
      · exact .inr (.inl habsent)

/-- The run over the entries of an object, from slots that are filled as they should be. -/
theorem Filled.ofEntries {fields : Fields αs} {values : Values αs} {slots : Slots αs}
    {entries : List (Quoted × Draft)} (hslots : fields.Filled levels slots)
    (h : fields.ofEntries strict levels ending entries slots = .ok values) :
    fields.Yields levels values := by
  induction entries generalizing slots with
  | nil =>
    simp only [Fields.ofEntries] at h
    cases hending : ending.read with
    | error e =>
      rw [hending] at h
      cases h
    | ok =>
      rw [hending] at h
      exact hslots.finish h
  | cons e entries ih =>
    obtain ⟨key, draft⟩ := e
    simp only [Fields.ofEntries] at h
    split at h
    · cases h
    · split at h
      · rename_i hfill
        exact ih (hslots.fill hfill) h
      · cases h
      · -- an entry that no field has is skipped
        split at h
        · cases h
        · split at h
          · cases h
          · exact ih hslots h

/-- A field that has to be there has a value that its decoder yields. -/
theorem Yields.required {α : Type} {d : Decoder α} {key : String} {rest : Fields αs} {a : α}
    {values : Values αs} (h : (cons (.required key d) rest).Yields levels (a, values)) :
    d.Yields levels a ∧ rest.Yields levels values :=
  ⟨h.1.resolve_right fun h => h.elim nofun nofun, h.2⟩

/-- The run over the items of an array. -/
theorem yields_of_ofItems {fields : Fields αs} {what : String} {index : Nat} {items : List Draft}
    {r : Values αs × List Draft} (h : fields.ofItems levels ending what index items = .ok r) :
    fields.Yields levels r.1 := by
  induction fields generalizing index items with
  | nil => trivial
  | cons field rest ih =>
    cases items with
    | nil =>
      simp only [Fields.ofItems] at h
      split at h
      · cases h
      · split at h
        · cases h
        · rename_i a hshort
          obtain ⟨r, hrest, rfl⟩ := map_eq_ok_iff.mp h
          -- the array has ended, and there is a value for that case
          exact ⟨.inr (.inr hshort), ih hrest⟩
    | cons x xs =>
      simp only [Fields.ofItems] at h
      split at h
      · cases h
      · rename_i a hread
        obtain ⟨r, hrest, rfl⟩ := map_eq_ok_iff.mp h
        exact ⟨.inl ⟨x, hread⟩, ih hrest⟩

end Fields

namespace Decoder

variable {α β : Type} {αs : List Type} {d : Decoder α} {levels : Nat} {a : α}

theorem Yields.of_map {f : α → β} {b : β} (h : (d.map f).Yields levels b) :
    ∃ a, d.Yields levels a ∧ f a = b := by
  obtain ⟨draft, h⟩ := h
  obtain ⟨a, hread, hb⟩ := map_eq_ok_iff.mp h
  exact ⟨a, ⟨draft, hread⟩, hb⟩

/-- What an optional decoder yields comes from the decoder itself. -/
theorem Yields.of_optional {o : Option α} (h : (optional d).Yields levels o) :
    ∀ a ∈ o, d.Yields levels a := by
  obtain ⟨draft, h⟩ := h
  unfold optional at h
  split at h
  · cases h
    exact nofun
  · cases h
  · obtain ⟨a, hread, rfl⟩ := map_eq_ok_iff.mp h
    rintro _ ⟨⟩
    exact ⟨_, hread⟩

/-- Each item of a list comes from its own draft. -/
theorem yields_of_items {ending : Ending} {drafts : List Draft} {as : List α}
    (h : items d levels ending drafts = .ok as) : ∀ a ∈ as, d.Yields levels a := by
  induction drafts generalizing as with
  | nil =>
    obtain ⟨-, -, rfl⟩ := map_eq_ok_iff.mp h
    exact nofun
  | cons x xs ih =>
    rw [items] at h
    split at h
    · cases h
    · rename_i a hread
      obtain ⟨as, hrest, rfl⟩ := map_eq_ok_iff.mp h
      exact List.forall_mem_cons.mpr ⟨⟨x, hread⟩, ih hrest⟩

/-- A list takes up a level. -/
theorem Yields.of_list {as : List α} (h : (list d).Yields levels as) :
    ∃ below, levels = below + 1 ∧ ∀ a ∈ as, d.Yields below a := by
  obtain ⟨draft, h⟩ := h
  unfold list at h
  split at h
  · cases h
  · exact ⟨_, rfl, yields_of_items h⟩
  · exact absurd h (expected_ne_ok _ _ _)

/-- A record takes up a level, whether it is written as an object or as an array. -/
theorem Yields.of_record {name : String} {fields : Fields αs} {build : Values αs → β} {strict : Bool}
    {b : β} (h : (record name fields build strict).Yields levels b) :
    ∃ below values, levels = below + 1 ∧ fields.Yields below values ∧ build values = b := by
  obtain ⟨draft, h⟩ := h
  unfold record at h
  split at h
  · cases h
  · cases h
  · -- an object
    obtain ⟨values, hvalues, hb⟩ := map_eq_ok_iff.mp h
    exact ⟨_, values, rfl, fields.filled_empty.ofEntries hvalues, hb⟩
  · -- an array, with no items left over
    dsimp only at h
    split at h
    · cases h
    · rename_i values hvalues
      obtain ⟨-, -, hb⟩ := map_eq_ok_iff.mp h
      exact ⟨_, values, rfl, Fields.yields_of_ofItems hvalues, hb⟩
    · cases h
  · exact absurd h (expected_ne_ok _ _ _)

/-- A chosen alternative is one of those on offer. -/
theorem mem_of_choose {alternatives : List (String × Alternative α)} {name : String}
    {alternative : Alternative α} (h : choose alternatives name = .ok alternative) :
    (name, alternative) ∈ alternatives := by
  unfold choose at h
  split at h
  · rename_i hlookup
    cases h
    obtain ⟨before, after, rfl, -⟩ := List.lookup_eq_some_iff.mp hlookup
    exact List.mem_append_right before List.mem_cons_self
  · cases h

/-- After the value of a variant nothing else may stand in the object. -/
theorem eq_of_last {more : List (Quoted × Draft)} {ending : Ending} {value : α}
    (h : (if more.isEmpty then ending.readLast.map fun _ => value else refuse .malformed) = .ok a) :
    value = a := by
  split at h
  · obtain ⟨-, -, hvalue⟩ := map_eq_ok_iff.mp h
    exact hvalue
  · cases h

/-- A variant carries nothing, or it takes up a level besides those of its payload. -/
theorem Yields.of_variants {alternatives : List (String × Alternative α)}
    (h : (variants alternatives).Yields levels a) :
    ∃ name, (name, .bare a) ∈ alternatives ∨
      ∃ d below, (name, .payload d) ∈ alternatives ∧ levels = below + 1 ∧ d.Yields below a := by
  obtain ⟨draft, h⟩ := h
  unfold variants at h
  split at h
  · -- a name
    split at h
    · cases h
    · split at h
      · cases h
      · rename_i hchoose
        cases h
        exact ⟨_, .inl (mem_of_choose hchoose)⟩
      · cases h
  · cases h
  · split at h <;> cases h
  · -- an object, whose first key is the name
    rename_i below key draft more ending
    obtain ⟨name, -, h⟩ := bind_eq_ok_iff.mp h
    obtain ⟨alternative, hchoose, h⟩ := bind_eq_ok_iff.mp h
    cases alternative with
    | bare value =>
      obtain ⟨value', hvalue, h⟩ := bind_eq_ok_iff.mp h
      obtain ⟨-, -, rfl⟩ := map_eq_ok_iff.mp hvalue
      rw [eq_of_last h] at hchoose
      exact ⟨name, .inl (mem_of_choose hchoose)⟩
    | payload d =>
      obtain ⟨value, hvalue, h⟩ := bind_eq_ok_iff.mp h
      rw [eq_of_last h] at hvalue
      exact ⟨name, .inr ⟨d, below, mem_of_choose hchoose, rfl, draft, hvalue⟩⟩
  · cases h
  · cases h

end Decoder

/-! ## §3 Bounded decoders -/

/-- What stands under the only key of an object. -/
def content : Json → Json
  | .obj [(_, j)] => j
  | j => j

/-- A variant is one level deeper than its payload. -/
theorem depth_le_content (j : Json) : j.depth ≤ j.content.depth + 1 := by
  unfold content
  split
  · simp [depth, depthEntries]
  · exact Nat.le_succ _

/-- What the decoder yields is encoded by `f` with no more levels than the decoder may enter. -/
def Decoder.Bounds {α : Type} (d : Decoder α) (f : α → Json) : Prop :=
  ∀ levels a, d.Yields levels a → (f a).depth ≤ levels

/-- The same for variants that all have payloads: the payload is what stands under the name. -/
inductive Alternative.Bounds {α : Type} (f : α → Json) : List (String × Alternative α) → Prop
  | nil : Alternative.Bounds f []
  | cons {name : String} {d : Decoder α} {rest : List (String × Alternative α)} :
      (d.Bounds fun a => (f a).content) → Alternative.Bounds f rest →
      Alternative.Bounds f ((name, .payload d) :: rest)

/-- Each alternative has a bounded payload. -/
theorem Alternative.Bounds.of_mem {α : Type} {f : α → Json} {alternatives : List (String × Alternative α)}
    (h : Alternative.Bounds f alternatives) {e : String × Alternative α} (he : e ∈ alternatives) :
    ∃ d, e.2 = .payload d ∧ d.Bounds fun a => (f a).content := by
  induction h with
  | nil => cases he
  | cons hd _ ih =>
    rcases List.mem_cons.mp he with rfl | he
    · exact ⟨_, rfl, hd⟩
    · exact ih he

/-- The same for a record: the values of its fields are encoded as the entries that `g` gives. -/
def Fields.Bounds {αs : List Type} (fields : Fields αs) (g : Values αs → List (String × Json)) : Prop :=
  ∀ levels values, fields.Yields levels values → depthEntries (g values) ≤ levels

namespace Fields

variable {α : Type} {αs : List Type} {d : Decoder α} {f : α → Json} {rest : Fields αs}
  {g : Values αs → List (String × Json)} {key : String}

theorem Bounds.nil : Fields.nil.Bounds fun _ => [] :=
  fun _ _ _ => Nat.zero_le _

/-- The value of a field that is left out may not be nested. -/
theorem Bounds.cons {field : Field α} (hd : field.decode.Bounds f)
    (habsent : ∀ a, field.absent = some a ∨ field.short = some a → (f a).depth = 0)
    (hrest : rest.Bounds g) :
    (cons field rest).Bounds fun values => (field.key, f values.1) :: g values.2 := by
  rintro levels ⟨a, values⟩ ⟨ha, hvalues⟩
  apply Nat.max_le_of_le_of_le _ (hrest levels values hvalues)
  rcases ha with ha | ha
  · exact hd levels a ha
  · exact (habsent a ha).trans_le (Nat.zero_le levels)

theorem Bounds.required (hd : d.Bounds f) (hrest : rest.Bounds g) :
    (Fields.cons (.required key d) rest).Bounds fun values => (key, f values.1) :: g values.2 :=
  .cons hd (fun _ h => h.elim nofun nofun) hrest

end Fields

namespace Decoder

variable {α β : Type} {αs : List Type} {d : Decoder α} {f : α → Json}

/-- Values that are not nested are within every limit. -/
theorem bounds_of_depth_eq_zero (h : ∀ a, (f a).depth = 0) : d.Bounds f :=
  fun levels a _ => (h a).trans_le (Nat.zero_le levels)

theorem bounds_string : string.Bounds .str :=
  bounds_of_depth_eq_zero fun _ => rfl

theorem bounds_bool : bool.Bounds .bool :=
  bounds_of_depth_eq_zero fun _ => rfl

theorem bounds_uint64 : uint64.Bounds fun k => .nat k.toNat :=
  bounds_of_depth_eq_zero fun _ => rfl

theorem bounds_uint32 : uint32.Bounds fun k => .nat k.toNat :=
  bounds_of_depth_eq_zero fun _ => rfl

theorem bounds_int64 : int64.Bounds fun k => .int k.toInt :=
  bounds_of_depth_eq_zero fun _ => rfl

theorem bounds_float : float.Bounds .float :=
  bounds_of_depth_eq_zero fun _ => rfl

/-- What is done to a result does not matter if the JSON form is the same. -/
theorem Bounds.map {f' : β → Json} {build : α → β} (h : d.Bounds f) (hf : ∀ a, f' (build a) = f a) :
    (d.map build).Bounds f' := by
  intro levels b hb
  obtain ⟨a, ha, rfl⟩ := hb.of_map
  rw [hf]
  exact h levels a ha

theorem Bounds.optional (h : d.Bounds f) : (optional d).Bounds (Json.ofOption f) := by
  intro levels o ho
  cases o with
  | none => exact Nat.zero_le levels
  | some a => exact h levels a (ho.of_optional a rfl)

/-- A list takes one level more than its items. -/
theorem Bounds.list (h : d.Bounds f) : (list d).Bounds (Json.ofList f) := by
  intro levels as has
  obtain ⟨below, rfl, hyields⟩ := has.of_list
  apply Nat.succ_le_succ
  rw [depthItems_le_iff, List.forall_mem_map]
  exact fun a ha => h below a (hyields a ha)

/-- A record takes one level more than its fields. -/
theorem Bounds.record {name : String} {fields : Fields αs} {build : Values αs → β} {strict : Bool}
    {g : Values αs → List (String × Json)} {f' : β → Json} (h : fields.Bounds g)
    (hf : ∀ values, f' (build values) = .obj (g values)) :
    (record name fields build strict).Bounds f' := by
  intro levels b hb
  obtain ⟨below, values, rfl, hyields, rfl⟩ := hb.of_record
  rw [hf]
  exact Nat.succ_le_succ (h below values hyields)

/-- A variant takes one level more than its payload. -/
theorem Bounds.variants {alternatives : List (String × Alternative α)}
    (h : Alternative.Bounds f alternatives) : (variants alternatives).Bounds f := by
  intro levels a ha
  obtain ⟨name, hbare | ⟨d, below, hpayload, rfl, hd⟩⟩ := ha.of_variants
  · obtain ⟨d, heq, -⟩ := h.of_mem hbare
    cases heq
  · obtain ⟨d, heq, hbounds⟩ := h.of_mem hpayload
    cases heq
    exact (depth_le_content (f a)).trans (Nat.succ_le_succ (hbounds below a hd))

end Decoder

/-- A field that may be absent is bounded in both cases. -/
theorem Fields.Bounds.optional {α : Type} {αs : List Type} {d : Decoder α} {f : α → Json}
    {rest : Fields αs} {g : Values αs → List (String × Json)} {key : String} (hd : d.Bounds f)
    (hrest : rest.Bounds g) : (Fields.cons (.optional key d) rest).Bounds fun values =>
      (key, .ofOption f values.1) :: g values.2 := by
  apply Bounds.cons (Decoder.Bounds.optional hd) _ hrest
  rintro o (habsent | hshort)
  · cases habsent
    rfl
  · cases hshort

end FieldPromotion.Json
