import FieldPromotion.Proofs.JsonText
import FieldPromotion.Tree.Decode

/-!
# Decoding what was encoded

`d.Reads n j a` says that the decoder `d` gives `a` for the JSON value `j`, as long as `d` may enter
fewer than `n` levels, and as many as `j` has. The decoders that are built of others do so when these
do: a record when its fields do, one of several variants when its payload does.
-/

namespace FieldPromotion.Json

/-! ## §1 Values that are read back -/

/-- The decoder gives `a` for `j` when it may enter fewer than `n` levels. -/
def Decoder.Reads {α : Type} (d : Decoder α) (n : Nat) (j : Json) (a : α) : Prop :=
  (∀ x ∈ j.floats, ReadsBack x) → ∀ levels < n, j.depth ≤ levels → d levels j.draft = .ok a

namespace Decoder

variable {α β : Type} {d : Decoder α} {n m : Nat} {j : Json} {a : α}

/-- What is decoded is read from the text, also when blanks follow. -/
theorem Reads.read_render_append (h : d.Reads (maxDepth + 1) j a)
    (hfloats : ∀ x ∈ j.floats, ReadsBack x) (hdepth : j.depth ≤ maxDepth) (style : Style)
    {blanks : String} (hblanks : ∀ c ∈ blanks.toList, isBlank c = true) :
    d.read (j.render style ++ blanks) = .ok a := by
  have hskip : skipBlanks blanks.toList = [] := by
    simpa [skipBlanks] using skipBlanks_append hblanks []
  rw [read, String.toList_append, scan_render style hfloats hblanks]
  simp only [h hfloats maxDepth (Nat.lt_succ_self _) hdepth, hskip]
  rfl

/-- A decoder that reads a value back reads it from its text, in either layout. -/
theorem Reads.read_render (h : d.Reads (maxDepth + 1) j a) (hfloats : ∀ x ∈ j.floats, ReadsBack x)
    (hdepth : j.depth ≤ maxDepth) (style : Style) : d.read (j.render style) = .ok a := by
  have hblanks : ∀ c ∈ "".toList, isBlank c = true := nofun
  simpa using h.read_render_append hfloats hdepth style hblanks

/-- With a smaller bound on the levels, less is asked of the decoder. -/
theorem Reads.mono (h : d.Reads n j a) (hm : m ≤ n) : d.Reads m j a :=
  fun hfloats levels hlt => h hfloats levels (Nat.lt_of_lt_of_le hlt hm)

/-- What is done to the result of a decoder is done to what is read back. -/
theorem Reads.map (h : d.Reads n j a) (f : α → β) : (d.map f).Reads n j (f a) := by
  intro hfloats levels hlt hdepth
  rw [Decoder.map, h hfloats levels hlt hdepth]
  rfl

theorem reads_string (s : String) : string.Reads n (.str s) s :=
  fun _ _ _ _ => rfl

theorem reads_bool (b : Bool) : bool.Reads n (.bool b) b :=
  fun _ _ _ _ => rfl

/-! ## §2 Numbers -/

/-- The draft of an integer is the integer itself, if it is one of 64 bits. -/
theorem draft_int {i : Int} (hlow : -9223372036854775808 ≤ i) (hhigh : i ≤ 18446744073709551615) :
    (Json.int i).draft = .number (.ok (.int i)) true := by
  show (scanScalar (toString i).toList).1 = _
  rw [scanScalar_int hlow hhigh]

/-- Integers between the bounds are read back. -/
theorem reads_intBetween {low high i : Int} {what : String} (hlow : low ≤ i) (hhigh : i ≤ high)
    (hlow' : -9223372036854775808 ≤ low) (hhigh' : high ≤ 18446744073709551615) :
    (intBetween low high what).Reads n (.int i) i := by
  intro _ levels _ _
  rw [draft_int (hlow'.trans hlow) (hhigh.trans hhigh')]
  exact if_pos ⟨hlow, hhigh⟩

theorem reads_uint64 (k : UInt64) : uint64.Reads n (.nat k.toNat) k := by
  have hlt := k.toNat_lt
  have h : (intBetween 0 18446744073709551615 "usize").Reads n (.int k.toNat) k.toNat :=
    reads_intBetween (by omega) (by omega) (by decide) (by decide)
  simpa [uint64, Json.nat] using h.map fun i => i.toNat.toUInt64

theorem reads_uint32 (k : UInt32) : uint32.Reads n (.nat k.toNat) k := by
  have hlt := k.toNat_lt
  have h : (intBetween 0 4294967295 "u32").Reads n (.int k.toNat) k.toNat :=
    reads_intBetween (by omega) (by omega) (by decide) (by decide)
  simpa [uint32, Json.nat] using h.map fun i => i.toNat.toUInt32

theorem reads_int64 (k : Int64) : int64.Reads n (.int k.toInt) k := by
  have hlow : -9223372036854775808 ≤ k.toInt := k.le_toInt
  have hhigh : k.toInt < 9223372036854775808 := k.toInt_lt
  have h : (intBetween (-9223372036854775808) 9223372036854775807 "i64").Reads n (.int k.toInt)
      k.toInt :=
    reads_intBetween hlow (by omega) (by decide) (by decide)
  simpa [int64] using h.map Int64.ofInt

/-- A double is read back wherever its text is. -/
theorem reads_float (x : Float) : float.Reads n (.float x) x := by
  intro hfloats levels _ _
  obtain ⟨v, complete, hv, hfloat⟩ := (hfloats x List.mem_cons_self).scanScalar
  show float levels (scanScalar (Json.float x).compact.toList).1 = _
  rw [hv]
  exact hfloat levels

/-! ## §3 Lists and optional values -/

/-- Items that are all read back make a list that is read back. -/
theorem items_map {f : α → Json} {levels : Nat} : ∀ {as : List α},
    (∀ a ∈ as, d levels (f a).draft = .ok a) →
    items d levels .closed (draftItems (as.map f)) = .ok as
  | [], _ => rfl
  | a :: as, h => by
    rw [List.map_cons, draftItems, items, h a List.mem_cons_self]
    simp only [items_map fun b hb => h b (List.mem_cons_of_mem a hb)]
    rfl

/-- A bound on the depth of a list is one on the depth of each item. -/
theorem depthItems_le_iff {items : List Json} {n : Nat} :
    depthItems items ≤ n ↔ ∀ j ∈ items, j.depth ≤ n := by
  induction items with
  | nil => simp [depthItems]
  | cons j js ih => simp [depthItems, ih]

/-- The doubles of a list are those of its items. -/
theorem mem_floatsItems {items : List Json} {x : Float} :
    x ∈ floatsItems items ↔ ∃ j ∈ items, x ∈ j.floats := by
  induction items with
  | nil => simp [floatsItems]
  | cons j js ih => simp [floatsItems, ih]

/-- An array is read back when its items are, one level further down. -/
theorem Reads.list {f : α → Json} {as : List α} (h : ∀ a ∈ as, d.Reads n (f a) a) :
    (list d).Reads n (.arr (as.map f)) as := by
  intro hfloats levels hlt hdepth
  rw [depth] at hdepth
  obtain ⟨levels, rfl⟩ := Nat.exists_eq_add_one_of_ne_zero (n := levels) (by omega)
  rw [draft, Decoder.list]
  apply items_map
  intro a ha
  have hmem : f a ∈ as.map f := List.mem_map_of_mem ha
  have hle := depthItems_le_iff.mp le_rfl _ hmem
  refine h a ha (fun x hx => hfloats x ?_) levels (by omega) (by omega)
  exact mem_floatsItems.mpr ⟨f a, hmem, hx⟩

/-- The decoder takes nothing that starts like `null`. -/
def NotNull (d : Decoder α) : Prop :=
  ∀ levels a, d levels .null ≠ .ok a ∧ ∀ flaw, d levels (.brokenNull flaw) ≠ .ok a

theorem notNull_string : string.NotNull :=
  fun _ _ => ⟨nofun, fun _ => nofun⟩

theorem notNull_list : (list d).NotNull := by
  intro levels a
  cases levels <;> exact ⟨nofun, fun _ => nofun⟩

theorem reads_none : (optional d).Reads n .null none :=
  fun _ _ _ _ => rfl

/-- A value that is there is read back, if it cannot be mistaken for one that is left out. -/
theorem Reads.some (h : d.Reads n j a) (hd : d.NotNull) : (optional d).Reads n j (some a) := by
  intro hfloats levels hlt hdepth
  have hread := h hfloats levels hlt hdepth
  unfold optional
  split
  · rename_i hnull
    rw [hnull] at hread
    exact absurd hread (hd _ a).1
  · rename_i flaw hnull
    rw [hnull] at hread
    exact absurd hread ((hd _ a).2 flaw)
  · rw [hread]
    rfl

/-- An optional value is read back, whether it is there or not. -/
theorem Reads.ofOption {f : α → Json} (hd : d.NotNull) : ∀ {o : Option α},
    (∀ a ∈ o, d.Reads n (f a) a) → (optional d).Reads n (.ofOption f o) o
  | none, _ => reads_none
  | Option.some a, h => (h a rfl).some hd

end Decoder

/-! ## §4 Records -/

@[simp] theorem Field.key_required {α : Type} (key : String) (d : Decoder α) :
    (Field.required key d).key = key := rfl

@[simp] theorem Field.key_optional {α : Type} (key : String) (d : Decoder α) :
    (Field.optional key d).key = key := rfl

/-- The fields of a record are read from the entries of an object that stand in the same order. -/
inductive Fields.Reads (n : Nat) : {αs : List Type} → Fields αs → List (String × Json) →
    Values αs → Prop
  | nil : Fields.Reads n .nil [] ()
  | cons {α : Type} {αs : List Type} {field : Field α} {rest : Fields αs} {j : Json} {a : α}
      {entries : List (String × Json)} {values : Values αs} :
      field.decode.Reads n j a → rest.Reads n entries values →
      Fields.Reads n (.cons field rest) ((field.key, j) :: entries) (a, values)

namespace Fields

variable {α β : Type} {αs : List Type} {field : Field α} {rest fields : Fields αs} {a : α}
  {n levels : Nat} {entries : List (String × Json)} {values : Values αs} {ending : Ending}

@[simp] theorem keys_nil : Fields.nil.keys = [] := rfl

@[simp] theorem keys_cons : (Fields.cons field rest).keys = field.key :: rest.keys := rfl

/-- The entries of a record that is read back have the keys of its fields, in order. -/
theorem Reads.keys_eq (h : fields.Reads n entries values) :
    entries.map Prod.fst = fields.keys := by
  induction h with
  | nil => rfl
  | cons _ _ ih => rw [List.map_cons, ih, keys]

/-- A field that has its value does not matter to entries with other keys. -/
theorem ofEntries_cons_some (drafts : List (Quoted × Draft)) (slots : Slots αs)
    (hkey : ∀ e ∈ drafts, e.1.text ≠ .ok field.key) :
    (Fields.cons field rest).ofEntries false levels ending drafts (some a, slots) =
      (rest.ofEntries false levels ending drafts slots).map fun values => (a, values) := by
  induction drafts generalizing slots with
  | nil =>
    simp only [ofEntries]
    cases ending.read <;> rfl
  | cons e drafts ih =>
    obtain ⟨key, draft⟩ := e
    have ih' := fun slots => ih slots fun e he => hkey e (List.mem_cons_of_mem _ he)
    simp only [ofEntries]
    cases htext : key.text with
    | error flaw => rfl
    | ok name =>
      -- the key is not written again, so the slot stays as it is
      have hne : field.key ≠ name := by
        rintro rfl
        exact hkey (key, draft) List.mem_cons_self htext
      simp only [fill, if_neg hne]
      cases rest.fill levels name draft slots with
      | none =>
        simp only [Option.map_none]
        cases draft.skip with
        | error flaw => rfl
        | ok => exact ih' slots
      | some r =>
        cases r with
        | error e => rfl
        | ok slots => exact ih' slots

/-- The keys of a draft are those that were written. -/
theorem text_of_mem_draftEntries {e : Quoted × Draft} (h : e ∈ draftEntries entries) :
    ∃ k ∈ entries.map Prod.fst, e.1.text = .ok k := by
  induction entries with
  | nil => cases h
  | cons e entries ih =>
    rcases List.mem_cons.mp h with rfl | h
    · exact ⟨e.1, List.mem_cons_self, rfl⟩
    · obtain ⟨k, hk, htext⟩ := ih h
      exact ⟨k, List.mem_cons_of_mem _ hk, htext⟩

/-- All fields find their values. -/
theorem Reads.ofEntries (h : fields.Reads n entries values) (hkeys : fields.keys.Nodup)
    (hfloats : ∀ x ∈ floatsEntries entries, ReadsBack x) (hlt : levels < n)
    (hdepth : depthEntries entries ≤ levels) :
    fields.ofEntries false levels .closed (draftEntries entries) (Slots.empty αs) = .ok values := by
  induction h with
  | nil => rfl
  | @cons α αs field rest j a entries values hfield hrest ih =>
    rw [keys, List.nodup_cons] at hkeys
    rw [depthEntries, Nat.max_le] at hdepth
    have hvalue := hfield (fun x hx => hfloats x (List.mem_append_left _ hx)) levels hlt hdepth.1
    have hvalues := ih hkeys.2 (fun x hx => hfloats x (List.mem_append_right _ hx)) hdepth.2
    -- the keys that follow are those of the other fields
    have hkey : ∀ e ∈ draftEntries entries, e.1.text ≠ .ok field.key := by
      intro e he htext
      obtain ⟨k, hk, htext'⟩ := text_of_mem_draftEntries he
      rw [htext, Except.ok.injEq] at htext'
      rw [← htext', hrest.keys_eq] at hk
      exact hkeys.1 hk
    simp only [draftEntries, Fields.ofEntries, Slots.empty, fill, if_true, hvalue]
    -- the first entry fills the first slot, and the others go on with the other fields
    show (Fields.cons field rest).ofEntries false levels .closed _ (some a, Slots.empty αs) = _
    rw [ofEntries_cons_some _ _ hkey, hvalues]
    rfl

end Fields

namespace Decoder

variable {α β : Type} {αs : List Type} {d : Decoder α} {n : Nat} {j : Json} {a : α} {name : String}

/-- A record is read from an object that has its fields in order. -/
theorem Reads.record_succ {fields : Fields αs} {entries : List (String × Json)} {values : Values αs}
    {build : Values αs → β} {b : β} (h : fields.Reads n entries values) (hkeys : fields.keys.Nodup)
    (hb : build values = b) : (record name fields build).Reads (n + 1) (.obj entries) b := by
  intro hfloats levels hlt hdepth
  rw [depth] at hdepth
  obtain ⟨levels, rfl⟩ := Nat.exists_eq_add_one_of_ne_zero (n := levels) (by omega)
  rw [draft, Decoder.record, h.ofEntries hkeys hfloats (by omega) (by omega), ← hb]
  rfl

/-- A record is read back when each of its fields is, and no two have the same key. -/
theorem Reads.record {fields : Fields αs} {entries : List (String × Json)} {values : Values αs}
    {build : Values αs → β} {b : β} (h : fields.Reads n entries values) (hkeys : fields.keys.Nodup)
    (hb : build values = b) : (record name fields build).Reads n (.obj entries) b :=
  (Reads.record_succ h hkeys hb).mono (Nat.le_succ n)

theorem notNull_record {fields : Fields αs} {build : Values αs → β} :
    (record name fields build).NotNull := by
  intro levels a
  cases levels <;> exact ⟨nofun, fun _ => nofun⟩

/-! ## §5 Variants -/

variable {alternatives : List (String × Alternative α)}

/-- A variant with a payload is read from an object with its name as the only key. -/
theorem Reads.variant_succ (hname : alternatives.lookup name = .some (.payload d))
    (h : d.Reads n j a) : (variants alternatives).Reads (n + 1) (.obj [(name, j)]) a := by
  intro hfloats levels hlt hdepth
  simp only [depth, depthEntries, Nat.max_zero] at hdepth
  obtain ⟨levels, rfl⟩ := Nat.exists_eq_add_one_of_ne_zero (n := levels) (by omega)
  have hread := h (fun x hx => hfloats x (List.mem_append_left _ hx)) levels (by omega) (by omega)
  simp only [draft, draftEntries, variants, orFlaw, choose, hname, bind, Except.bind, hread]
  rfl

/-- A variant is read back when its payload is. -/
theorem Reads.variant (hname : alternatives.lookup name = .some (.payload d)) (h : d.Reads n j a) :
    (variants alternatives).Reads n (.obj [(name, j)]) a :=
  (Reads.variant_succ hname h).mono (Nat.le_succ n)

theorem notNull_variants : (variants alternatives).NotNull := by
  intro levels a
  cases levels <;> exact ⟨nofun, fun _ => nofun⟩

/-- A variant that carries nothing is read from its name. -/
theorem reads_names {values : List (String × α)} (hname : values.lookup name = .some a) :
    (names values).Reads n (.str name) a := by
  -- a name is found among the variants as it is among the values
  have hbare : (values.map fun v => (v.1, Alternative.bare v.2)).lookup name = .some (.bare a) := by
    induction values with
    | nil => cases hname
    | cons v values ih =>
      rw [List.lookup_cons] at hname
      rw [List.map_cons, List.lookup_cons]
      cases hv : name == v.1 with
      | true =>
        simp only [hv, Option.some.injEq] at hname
        simp [hname]
      | false =>
        simp only [hv] at hname
        exact ih hname
  intro _ levels _ _
  simp only [names, draft, variants, orFlaw, choose, hbare]

end Decoder

end FieldPromotion.Json
