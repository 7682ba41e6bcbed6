import FieldPromotion.Proofs.HandWritten

/-!
# Inserting fields

New fields stand in one block among the members of a class: after the last field, before the first one,
or at the start if there is no field. The place is determined by the members before and after it. It
follows that blocks can be inserted one after the other or all at once.
-/

namespace FieldPromotion

/-! ## §1 The place of the block -/

namespace FieldOrder.Divides

variable {order : FieldOrder} {pre post : List Member}

/-- The place is where the second part starts. -/
theorem fieldPoint_eq (h : order.Divides pre post) :
    fieldPoint order (pre ++ post) = pre.length := by
  cases order with
  | append =>
    obtain ⟨hpost, hlast⟩ := h
    -- from the end, the members after the place come first
    have hnone : post.reverse.findIdx? Member.isField = none := by
      rw [List.findIdx?_eq_none_iff]
      exact fun x hx => hpost x (List.mem_reverse.mp hx)
    rw [fieldPoint, List.reverse_append, List.findIdx?_append, hnone]
    rcases List.eq_nil_or_concat pre with rfl | ⟨front, x, rfl⟩
    · simp
    · have hx : x.isField = true := hlast x (by simp)
      simp [List.findIdx?_cons, hx]
      omega
  | prepend =>
    obtain ⟨hpre, ⟨x, hx, hfield⟩ | ⟨rfl, hpost⟩⟩ := h
    · have hnone : pre.findIdx? Member.isField = none := List.findIdx?_eq_none_iff.mpr hpre
      obtain ⟨rest, rfl⟩ : ∃ rest, post = x :: rest := List.head?_eq_some_iff.mp hx
      simp [fieldPoint, List.findIdx?_append, hnone, List.findIdx?_cons, hfield]
    · have hnone : post.findIdx? Member.isField = none := List.findIdx?_eq_none_iff.mpr hpost
      simp [fieldPoint, hnone]

theorem insertFields_eq (h : order.Divides pre post) (fields : List FieldDecl) :
    insertFields order fields (pre ++ post) = pre ++ fields.map .field ++ post := by
  rw [insertFields, h.fieldPoint_eq, insertAt, List.take_left, List.drop_left]

/-- After an insertion, the place for more fields is behind the block. -/
theorem append_block (h : FieldOrder.append.Divides pre post) (fields : List FieldDecl) :
    FieldOrder.append.Divides (pre ++ fields.map .field) post := by
  cases fields with
  | nil => simpa using h
  | cons f fields =>
    refine ⟨h.1, ?_⟩
    -- the last member before the place is now the last one of the block
    intro x hx
    rw [List.getLast?_append_of_ne_nil _ (by simp)] at hx
    obtain ⟨g, -, rfl⟩ := List.mem_map.mp (List.mem_of_getLast? hx)
    rfl

/-- After an insertion, the place for more fields is in front of the block. -/
theorem prepend_block (h : FieldOrder.prepend.Divides pre post) (fields : List FieldDecl) :
    FieldOrder.prepend.Divides pre (fields.map .field ++ post) := by
  cases fields with
  | nil => simpa using h
  | cons f fields => exact ⟨h.1, Or.inl ⟨.field f, rfl, rfl⟩⟩

end FieldOrder.Divides

/-! ## §2 What an insertion keeps -/

/-- Old and new fields in the order they stand in. -/
def FieldOrder.join (order : FieldOrder) (old new : List FieldDecl) : List FieldDecl :=
  match order with
  | .append => old ++ new
  | .prepend => new ++ old

theorem filterMap_field?_eq_nil {members : List Member} (h : ∀ x ∈ members, x.isField = false) :
    members.filterMap Member.field? = [] := by
  rw [List.filterMap_eq_nil_iff]
  intro x hx
  have hfield := h x hx
  cases x with
  | field f => cases hfield
  | _ => rfl

/-- The new fields come after all fields there were, or before all of them. -/
theorem filterMap_field?_insertFields (order : FieldOrder) (fields : List FieldDecl)
    (members : List Member) :
    (insertFields order fields members).filterMap Member.field? =
      order.join (members.filterMap Member.field?) fields := by
  have hdiv := divides_fieldPoint order members
  rw [insertFields, filterMap_insertAt, Member.filterMap_field?_map,
    ← filterMap_take_append_drop Member.field? members (fieldPoint order members)]
  cases order with
  | append => simp [FieldOrder.join, filterMap_field?_eq_nil hdiv.1]
  | prepend => simp [FieldOrder.join, filterMap_field?_eq_nil hdiv.1]

/-- A second block stands next to the first one: behind it, or in front of it. -/
theorem insertFields_insertFields (order : FieldOrder) (xs ys : List FieldDecl)
    (members : List Member) :
    insertFields order ys (insertFields order xs members) =
      insertFields order (order.join xs ys) members := by
  obtain ⟨pre, post, rfl, hdiv⟩ : ∃ pre post, members = pre ++ post ∧ order.Divides pre post :=
    ⟨_, _, (List.take_append_drop _ _).symm, divides_fieldPoint order members⟩
  rw [hdiv.insertFields_eq, hdiv.insertFields_eq]
  cases order with
  | append =>
    rw [(hdiv.append_block xs).insertFields_eq, FieldOrder.join, List.map_append,
      List.append_assoc pre]
  | prepend =>
    rw [List.append_assoc, (hdiv.prepend_block xs).insertFields_eq, FieldOrder.join,
      List.map_append]
    simp only [List.append_assoc]

/-- New fields stand in one block among members that are otherwise as they were, the fields are in
order, and two insertions are one. -/
theorem insertFields_laws (order : FieldOrder) (xs ys : List FieldDecl)
    (members : List Member) :
    (∃ pre post, members = pre ++ post ∧ order.Divides pre post ∧
      insertFields order xs members = pre ++ xs.map .field ++ post) ∧
    (insertFields order xs members).filterMap Member.field? =
      order.join (members.filterMap Member.field?) xs ∧
    insertFields order ys (insertFields order xs members) =
      insertFields order (order.join xs ys) members := by
  refine ⟨?_, filterMap_field?_insertFields order xs members,
    insertFields_insertFields order xs ys members⟩
  have hdiv := divides_fieldPoint order members
  refine ⟨_, _, (List.take_append_drop _ _).symm, hdiv, ?_⟩
  rw [← hdiv.insertFields_eq, List.take_append_drop]

end FieldPromotion
