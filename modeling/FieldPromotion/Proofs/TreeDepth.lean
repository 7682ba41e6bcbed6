import FieldPromotion.Proofs.JsonDepth
import FieldPromotion.Proofs.TreeReading

/-!
# The depth of trees that are read

A tree that is read from a text within the limit on nesting has a JSON form within that limit,
however the text was written.
-/

namespace FieldPromotion

open Json Json.Decoder

/-! ## §1 Spans, names and types -/

/-- A span that is read is within the limit. It takes one level, as an object of numbers. -/
theorem Span.bounds : Span.decoder.Bounds Span.toJson :=
  .record (.required bounds_uint64 <| .required bounds_uint64 <| .required bounds_uint32 <|
    .required bounds_uint32 .nil) fun _ => rfl

/-- So is a name, which takes two levels together with its span. -/
theorem Ident.bounds : Ident.decoder.Bounds Ident.toJson :=
  .record (.required bounds_string <| .required Span.bounds .nil) fun _ => rfl

/-- A primitive type is written by its name, which takes no level. -/
theorem Primitive.bounds : Primitive.decoder.Bounds Primitive.toJson :=
  bounds_of_depth_eq_zero fun _ => rfl

namespace TypeExpr

/-- What stands under the key `ty` of an annotation. -/
def shapeToJson (t : TypeExpr) : Json :=
  match t.toJson with
  | .obj ((_, shape) :: _) => shape
  | j => j

/-- All types are written in one form: a shape, and a span. -/
theorem toJson_eq_shape (t : TypeExpr) :
    ∃ span : Span, t.toJson = .obj [("ty", t.shapeToJson), ("span", span.toJson)] := by
  cases t with
  | primitive _ span => exact ⟨span, rfl⟩
  | named _ span => exact ⟨span, rfl⟩
  | applied _ _ span => exact ⟨span, rfl⟩
  | array _ span => exact ⟨span, rfl⟩

/-- The shape of a type is within the limit if the types in it are. The span is not known yet when
the shape is read, so this is said for any span. -/
theorem bounds_shapeDecoder {inner : Decoder TypeExpr} (h : inner.Bounds toJson) (span : Span) :
    (shapeDecoder inner).Bounds fun shape => (shape span).shapeToJson := by
  apply Bounds.variants
  repeat' apply Alternative.Bounds.cons
  · exact Primitive.bounds.map fun _ => rfl
  -- without arguments `null` is written, which an array of no arguments does not exceed
  · apply Bounds.record (.required Ident.bounds <| .optional (.list h) .nil)
    rintro ⟨name, args, _⟩
    cases args with
    | none => rfl
    | some args =>
      show Json.obj [_, ("type_args", .arr (argsToJson args))] = _
      rw [argsToJson_eq]
      rfl
  · exact h.map fun _ => rfl
  · exact .nil

/-- With any amount of fuel, types that are read are within the limit. -/
theorem bounds_decoderOfFuel (n : Nat) : (decoderOfFuel n).Bounds toJson := by
  induction n with
  | zero =>
    -- without fuel nothing is read
    rintro levels t ⟨draft, h⟩
    cases h
  | succ n ih =>
    intro levels t ht
    obtain ⟨below, ⟨shape, span, ⟨⟩⟩, rfl, hvalues, rfl⟩ := Yields.of_record ht
    obtain ⟨hshape, hrest⟩ := Fields.Yields.required hvalues
    obtain ⟨hspan, -⟩ := Fields.Yields.required hrest
    have hty := bounds_shapeDecoder ih span below shape hshape
    have hone : 1 ≤ below := Span.bounds below span hspan
    -- The span that is written need not be the one that was read, but all spans are equally deep.
    obtain ⟨span', heq⟩ := (shape span).toJson_eq_shape
    show (shape span).toJson.depth ≤ below + 1
    rw [heq]
    exact Nat.succ_le_succ (Nat.max_le.mpr ⟨hty, Nat.max_le.mpr ⟨hone, Nat.zero_le below⟩⟩)

/-- Types that are read are within the limit. -/
theorem bounds : decoder.Bounds toJson := by
  rintro levels _ ⟨draft, h⟩
  exact bounds_decoderOfFuel (levels + 1) levels _ ⟨draft, h⟩

end TypeExpr

/-! ## §2 Expressions -/

namespace Expr

/-- A step in the recursion over expressions: they are within the limit if their parts are. -/
theorem bounds_stepDecoder {self : Decoder Expr} (h : self.Bounds toJson) :
    (stepDecoder self).Bounds toJson := by
  apply Bounds.variants
  repeat' apply Alternative.Bounds.cons
  -- literals first, then names, then what has expressions inside
  · exact .record (.required bounds_int64 <| .required Span.bounds .nil) fun _ => rfl
  · exact .record (.required bounds_float <| .required Span.bounds .nil) fun _ => rfl
  · exact .record (.required bounds_string <| .required Span.bounds .nil) fun _ => rfl
  · exact .record (.required bounds_bool <| .required Span.bounds .nil) fun _ => rfl
  · exact Span.bounds.map fun _ => rfl
  · exact Ident.bounds.map fun _ => rfl
  · exact Span.bounds.map fun _ => rfl
  · exact Span.bounds.map fun _ => rfl
  · exact .record (.required h <| .required Ident.bounds <| .required Span.bounds .nil) fun _ => rfl
  -- the arguments of a call are written by a function of their own
  · apply Bounds.record (.required h <| .required (.list h) <| .required Span.bounds .nil)
    rintro ⟨callee, arguments, span, _⟩
    show Json.obj [_, ("arguments", .arr (argsToJson arguments)), _] = _
    rw [argsToJson_eq]
    rfl
  · exact .record (.required h <| .required h <| .required Span.bounds .nil) fun _ => rfl
  · exact .nil

/-- With any amount of fuel, expressions that are read are within the limit. -/
theorem bounds_decoderOfFuel (n : Nat) : (decoderOfFuel n).Bounds toJson := by
  induction n with
  | zero =>
    -- without fuel nothing is read
    rintro levels e ⟨draft, h⟩
    cases h
  | succ n ih => exact bounds_stepDecoder ih

/-- Expressions that are read are within the limit. -/
theorem bounds : decoder.Bounds toJson := by
  rintro levels _ ⟨draft, h⟩
  exact bounds_decoderOfFuel (levels + 1) levels _ ⟨draft, h⟩

end Expr

/-! ## §3 Parameters and fields -/

theorem Storage.bounds : Storage.decoder.Bounds Storage.toJson :=
  bounds_of_depth_eq_zero fun _ => rfl

theorem Visibility.bounds : Visibility.decoder.Bounds Visibility.toJson :=
  bounds_of_depth_eq_zero fun _ => rfl

theorem Keyword.bounds : Keyword.decoder.Bounds Keyword.toJson :=
  bounds_of_depth_eq_zero fun _ => rfl

/-- A modifier takes as many levels as a name. -/
theorem Modifier.bounds : Modifier.decoder.Bounds Modifier.toJson :=
  .record (.required Keyword.bounds <| .required Span.bounds .nil) fun _ => rfl

/-- An annotation that is read is within the limit, as its arguments are. -/
theorem Metadata.bounds : Metadata.decoder.Bounds Metadata.toJson :=
  .record (.required Ident.bounds <| .required (.list Expr.bounds) <|
    .required Span.bounds .nil) fun _ => rfl

/-- A parameter is within the limit. What is left out of it is written as `null` and takes no
level. -/
theorem Param.bounds : Param.decoder.Bounds Param.toJson :=
  .record (.required (.list Metadata.bounds) <| .required (.list Modifier.bounds) <|
    .required Ident.bounds <| .optional TypeExpr.bounds <| .optional Expr.bounds <|
    .required Span.bounds .nil) fun _ => rfl

theorem VarDecl.bounds : VarDecl.decoder.Bounds VarDecl.toJson :=
  .record (.required Storage.bounds <| .required Ident.bounds <| .optional TypeExpr.bounds <|
    .optional Expr.bounds <| .required Span.bounds .nil) fun _ => rfl

theorem FieldDecl.bounds : FieldDecl.decoder.Bounds FieldDecl.toJson :=
  .record (.required (.list Metadata.bounds) <| .required Visibility.bounds <|
    .required Storage.bounds <| .required bounds_bool <| .required Ident.bounds <|
    .optional TypeExpr.bounds <| .optional Expr.bounds <| .required Span.bounds .nil) fun _ => rfl

/-! ## §4 Statements and classes -/

section

variable {stmt : Decoder Stmt} (h : stmt.Bounds Stmt.toJson)

include h

/-- A block is within the limit if its statements are. -/
theorem Block.bounds_decoderOf : (Block.decoderOf stmt).Bounds Block.toJson :=
  .record (.required (.list h) <| .required Span.bounds .nil) fun values => by
    show Json.obj [("statements", .arr (Stmt.listToJson values.1)), _] = _
    rw [Stmt.listToJson_eq]
    rfl

/-- A function is within the limit if its statements are. -/
theorem FunDecl.bounds_decoderOf : (FunDecl.decoderOf stmt).Bounds FunDecl.toJson :=
  .record (.required Ident.bounds <| .required (.list Param.bounds) <| .optional TypeExpr.bounds <|
    .required (Block.bounds_decoderOf h) <| .required Span.bounds .nil) fun _ => rfl

/-- A method is within the limit, whether it has a body or not. -/
theorem MethodDecl.bounds_decoderOf : (MethodDecl.decoderOf stmt).Bounds MethodDecl.toJson :=
  .record (.required (.list Metadata.bounds) <| .required Visibility.bounds <|
    .required bounds_bool <| .required bounds_bool <| .required Ident.bounds <|
    .required (.list Param.bounds) <| .optional TypeExpr.bounds <|
    .optional (Block.bounds_decoderOf h) <| .required Span.bounds .nil) fun values => by
      obtain ⟨_, _, _, _, _, _, _, body, _, _⟩ := values
      cases body <;> rfl

/-- A constructor is within the limit if its statements are. -/
theorem CtorDecl.bounds_decoderOf : (CtorDecl.decoderOf stmt).Bounds CtorDecl.toJson :=
  .record (.required (.list Param.bounds) <| .required (Block.bounds_decoderOf h) <|
    .required Span.bounds .nil) fun _ => rfl

/-- All three kinds of members are within the limit. -/
theorem Member.bounds_decoderOf : (Member.decoderOf stmt).Bounds Member.toJson :=
  .variants (.cons (FieldDecl.bounds.map fun _ => rfl) <|
    .cons ((MethodDecl.bounds_decoderOf h).map fun _ => rfl) <|
    .cons ((CtorDecl.bounds_decoderOf h).map fun _ => rfl) .nil)

/-- A class is within the limit if the statements in its members are. -/
theorem ClassDecl.bounds_decoderOf : (ClassDecl.decoderOf stmt).Bounds ClassDecl.toJson :=
  .record (.required (.list Metadata.bounds) <| .required bounds_bool <| .required Ident.bounds <|
    .optional Ident.bounds <| .required (.list (Member.bounds_decoderOf h)) <|
    .required Span.bounds .nil) fun values => by
      obtain ⟨_, _, _, _, members, _, _⟩ := values
      show Json.obj [_, _, _, _, ("members", .arr (Member.listToJson members)), _] = _
      rw [Member.listToJson_eq]
      rfl

/-- A step in the recursion over statements. -/
theorem Stmt.bounds_stepDecoder : (Stmt.stepDecoder stmt).Bounds Stmt.toJson := by
  apply Bounds.variants
  repeat' apply Alternative.Bounds.cons
  -- one case for each kind of statement, in the order of the decoder
  · exact VarDecl.bounds.map fun _ => rfl
  · exact (FunDecl.bounds_decoderOf h).map fun _ => rfl
  · exact (ClassDecl.bounds_decoderOf h).map fun _ => rfl
  · exact .record (.required Expr.bounds <| .required Span.bounds .nil) fun _ => rfl
  · apply Bounds.record (.required Expr.bounds <| .required h <| .optional h <|
      .required Span.bounds .nil)
    rintro ⟨condition, thenBranch, elseBranch, span, _⟩
    cases elseBranch <;> rfl
  · exact .record (.required Expr.bounds <| .required h <| .required Span.bounds .nil) fun _ => rfl
  · exact .record (.optional Expr.bounds <| .required Span.bounds .nil) fun _ => rfl
  · exact (Block.bounds_decoderOf h).map fun _ => rfl
  · exact Span.bounds.map fun _ => rfl
  · exact .nil

end

/-- With any amount of fuel, statements that are read are within the limit. -/
theorem Stmt.bounds_decoderOfFuel (n : Nat) : (Stmt.decoderOfFuel n).Bounds Stmt.toJson := by
  induction n with
  | zero =>
    -- without fuel nothing is read
    rintro levels s ⟨draft, h⟩
    cases h
  | succ n ih => exact Stmt.bounds_stepDecoder ih

/-- Statements that are read are within the limit. -/
theorem Stmt.bounds : Stmt.decoder.Bounds Stmt.toJson := by
  rintro levels _ ⟨draft, h⟩
  exact Stmt.bounds_decoderOfFuel (levels + 1) levels _ ⟨draft, h⟩

/-- A module that is read is within the limit, so it can be read again from what is written. -/
theorem Module.bounds : Module.decoder.Bounds Module.toJson :=
  .record (.required (.list Stmt.bounds) <| .required Span.bounds .nil) fun values => by
    show Json.obj [("statements", .arr (Stmt.listToJson values.1)), _] = _
    rw [Stmt.listToJson_eq]
    rfl

end FieldPromotion
