import FieldPromotion.Diagnostic.Record

/-!
# Labels of errors

Every error points at its own span first, and whatever else it points at only has to do with it. So the
record of an error whose source is not at hand has one label, at the line and column of that span. The
label ends as many columns further as the span is long. If numbers of 64 bits cannot hold that column,
there is no record.
-/

namespace FieldPromotion

/-! ## §1 The own label of an error -/

/-- The first label of an error is at its own span, and the others are secondary. -/
theorem Error.exists_labels_eq (e : Error) : ∃ message rest,
    e.labels = .primary e.span message :: rest ∧ ∀ l ∈ rest, l.style = .secondary := by
  cases e with
  | misplacedField name place s => exact ⟨_, [], rfl, by simp⟩
  | staticField name s => exact ⟨_, [], rfl, by simp⟩
  | duplicateField name cls earlier duplicate =>
    refine ⟨_, _, rfl, ?_⟩
    -- the earlier field is shown unless its span is empty
    intro l hl
    split at hl
    · cases hl
    · rw [List.mem_singleton.mp hl]
      rfl
  | conflictingModifiers name first second s => exact ⟨_, [], rfl, by simp⟩
  | modifierWithoutStorage name modifier s => exact ⟨_, [], rfl, by simp⟩
  | cyclicInheritance cls s => exact ⟨_, [], rfl, by simp⟩
  | duplicateConstructor cls earlier duplicate =>
    exact ⟨_, [.secondary earlier "first constructor here"], rfl, by simp [Label.secondary]⟩
  | duplicateClass cls earlier duplicate =>
    exact ⟨_, [.secondary earlier "first declared here"], rfl, by simp [Label.secondary]⟩

/-- Of the labels of an error, only its own one is primary. -/
theorem Error.exists_filter_primary (e : Error) : ∃ message,
    e.labels.filter (·.style == .primary) = [.primary e.span message] := by
  obtain ⟨message, rest, hlabels, hrest⟩ := e.exists_labels_eq
  have hnone : rest.filter (·.style == .primary) = [] := by
    rw [List.filter_eq_nil_iff]
    intro l hl
    rw [hrest l hl]
    decide
  refine ⟨message, ?_⟩
  rw [hlabels, List.filter_cons_of_pos rfl, hnone]

/-! ## §2 Columns -/

/-- The number of bytes of a span, zero when it ends before it starts. -/
theorem Span.toNat_length (s : Span) : s.length.toNat = s.stop.toNat - s.start.toNat := by
  unfold Span.length
  by_cases h : s.start ≤ s.stop
  · rw [if_pos h, UInt64.toNat_sub_of_le _ _ h]
  · rw [if_neg h]
    have hlt : s.stop.toNat < s.start.toNat := by
      rw [UInt64.le_iff_toNat_le] at h
      omega
    rw [UInt64.toNat_zero]
    omega

/-- The column at which a span would end on its line. -/
def Span.endColumn (s : Span) : Nat :=
  s.column.toNat + (s.stop.toNat - s.start.toNat)

namespace DiagnosticRecord

variable {s : Span}

/-- The sum of the first column and the length is computed in 64 bits. -/
theorem toNat_column_add_length (s : Span) :
    (s.column.toUInt64 + s.length).toNat = s.endColumn % UInt64.size := by
  rw [UInt64.toNat_add, UInt32.toNat_toUInt64, Span.toNat_length]
  rfl

/-- A sum that does not fit is smaller than the length, since a column is never that large. -/
theorem column_add_length_lt_iff :
    s.column.toUInt64 + s.length < s.length ↔ UInt64.size ≤ s.endColumn := by
  have hcolumn : s.column.toNat < UInt64.size :=
    Nat.lt_trans s.column.toNat_lt_size (by decide)
  have hlength : s.length.toNat < UInt64.size := s.length.toNat_lt_size
  have hsum : s.endColumn = s.column.toNat + s.length.toNat := by
    rw [Span.toNat_length]
    rfl
  rw [UInt64.lt_iff_toNat_lt, toNat_column_add_length]
  rcases Nat.lt_or_ge s.endColumn UInt64.size with hlt | hge
  · rw [Nat.mod_eq_of_lt hlt]
    omega
  · rw [Nat.mod_eq_sub_mod hge, Nat.mod_eq_of_lt (by omega)]
    omega

theorem endColumn?_eq_none_iff : endColumn? s = none ↔ UInt64.size ≤ s.endColumn := by
  unfold endColumn?
  simp only [column_add_length_lt_iff]
  split
  · simpa
  · simpa using Nat.lt_of_not_le ‹_›

theorem toNat_of_endColumn? {column : UInt64} (h : endColumn? s = some column) :
    column.toNat = s.endColumn := by
  have hfits : s.endColumn < UInt64.size := by
    apply Nat.lt_of_not_le
    intro hle
    rw [endColumn?_eq_none_iff.mpr hle] at h
    cases h
  unfold endColumn? at h
  simp only at h
  split at h
  · cases h
  · rw [← Option.some.inj h, toNat_column_add_length, Nat.mod_eq_of_lt hfits]

end DiagnosticRecord

/-! ## §3 Records without source -/

/-- `l.Marks file s`: the label `l` marks the span `s` of a file, from its first column to the one at
which it ends. -/
structure PlacedLabel.Marks (l : PlacedLabel) (file : String) (s : Span) : Prop where
  file : l.file = file
  style : l.style = .primary
  start : l.start = ⟨s.line.toNat, s.column.toNat⟩
  stop : l.stop = ⟨s.line.toNat, s.endColumn⟩

namespace DiagnosticRecord

/-- The record of an error is that of its own label. -/
theorem exists_ofError?_eq (file : String) (e : Error) : ∃ message, ofError? file e =
    (placeOfSpan? file e.span (.primary e.span message)).map fun l =>
      { code := e.code, message := e.message, labels := [l], notes := e.notes } := by
  obtain ⟨message, hfilter⟩ := e.exists_filter_primary
  refine ⟨message, ?_⟩
  rw [ofError?, hfilter, List.mapM_cons, List.mapM_nil]
  cases placeOfSpan? file e.span (.primary e.span message) <;> rfl

/-- If 64 bits can hold the column at which the span of an error ends, there is a record of the error. It
has one label, which marks the span and does not end before it starts. Otherwise there is no record. -/
theorem exists_label_or_none (file : String) (e : Error) :
    (e.span.endColumn < UInt64.size ∧ ∃ r l, ofError? file e = some r ∧ r.labels = [l] ∧
      l.Marks file e.span ∧ l.start.column ≤ l.stop.column) ∨
    (UInt64.size ≤ e.span.endColumn ∧ ofError? file e = none) := by
  obtain ⟨message, hrecord⟩ := exists_ofError?_eq file e
  rw [hrecord, placeOfSpan?]
  -- the end column is a checked sum, and it is the only thing that can fail
  cases hcolumn : endColumn? e.span with
  | none => exact Or.inr ⟨endColumn?_eq_none_iff.mp hcolumn, rfl⟩
  | some column =>
    have hstop := toNat_of_endColumn? hcolumn
    refine Or.inl ⟨?_, _, _, rfl, rfl, ⟨rfl, rfl, rfl, ?_⟩, ?_⟩
    · rw [← hstop]
      exact column.toNat_lt_size
    · exact congrArg (Position.mk e.span.line.toNat) hstop
    · show e.span.column.toNat ≤ column.toNat
      rw [hstop]
      exact Nat.le_add_right _ _

/-- The longest span there is fits on its line from column zero on, and from no other column. -/
example : (ofError? "unit" (.staticField "x" ⟨0, 18446744073709551615, 1, 0⟩)).isSome ∧
    ofError? "unit" (.staticField "x" ⟨0, 18446744073709551615, 1, 1⟩) = none := by
  decide

end DiagnosticRecord

end FieldPromotion
