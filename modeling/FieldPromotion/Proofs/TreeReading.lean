import FieldPromotion.Proofs.JsonDecoding
import FieldPromotion.Tree.Build
import FieldPromotion.Tree.Encode

/-!
# Trees are read back

The decoder of each kind of node gives the node back from its JSON form, so a module is read back from
its text.
-/

namespace FieldPromotion

open Json Json.Decoder

/-! ## §1 Spans, names and types -/

/-- A span is read back from its four numbers. -/
theorem Span.reads (s : Span) (n : Nat) : Span.decoder.Reads n s.toJson s :=
  .record (.cons (reads_uint64 s.start) <| .cons (reads_uint64 s.stop) <|
    .cons (reads_uint32 s.line) <| .cons (reads_uint32 s.column) .nil) (by simp) rfl

theorem Ident.reads (id : Ident) (n : Nat) : Ident.decoder.Reads n id.toJson id :=
  .record (.cons (reads_string id.name) <| .cons (id.span.reads n) .nil) (by simp) rfl

/-- Primitive types are written by their names, no two of which are the same. -/
theorem Primitive.reads (p : Primitive) (n : Nat) : Primitive.decoder.Reads n p.toJson p :=
  reads_names (by cases p <;> rfl)

namespace TypeExpr

variable {n : Nat}

/-- The arguments of a type are written one by one. They have a function of their own only for the
sake of recursion. -/
theorem argsToJson_eq (ts : List TypeExpr) : argsToJson ts = ts.map toJson := by
  induction ts with
  | nil => rfl
  | cons t ts ih => rw [argsToJson, ih, List.map_cons]

/-- An annotation is read when what stands under the key `ty` is. -/
theorem reads_of_shape {shape : Span → TypeExpr} {j : Json}
    (h : (shapeDecoder (decoderOfFuel n)).Reads n j shape) (span : Span) :
    (decoderOfFuel (n + 1)).Reads (n + 1) (.obj [("ty", j), ("span", span.toJson)]) (shape span) :=
  .record_succ (.cons h <| .cons (span.reads n) .nil) (by simp) rfl

/-- A named type, with or without arguments. -/
theorem reads_reference {args : Option (List TypeExpr)} {j : Json} (name : Ident)
    (h : (Decoder.optional (Decoder.list (decoderOfFuel n))).Reads n j args) :
    (shapeDecoder (decoderOfFuel n)).Reads n
      (.obj [("Reference", .obj [("name", name.toJson), ("type_args", j)])])
      (args.elim (.named name) (.applied name)) :=
  .variant rfl (.record (.cons (name.reads n) <| .cons h .nil) (by simp) (by cases args <;> rfl))

mutual

/-- A type is read back with as many levels as the decoder has fuel. Each constructor uses up one
level of both, so there is fuel left for the parts. -/
theorem reads_decoderOfFuel : (t : TypeExpr) → (n : Nat) → (decoderOfFuel n).Reads n t.toJson t
  -- without fuel there is no level either, and nothing is claimed
  | _, 0 => fun _ _ hlt => absurd hlt (Nat.not_lt_zero _)
  | .primitive kind span, n + 1 => by
    have hshape : (shapeDecoder (decoderOfFuel n)).Reads n (.obj [("Primitive", kind.toJson)])
        (.primitive kind) :=
      .variant rfl ((kind.reads n).map _)
    exact reads_of_shape hshape span
  | .named name span, n + 1 => reads_of_shape (reads_reference name reads_none) span
  -- no arguments in an array are told from arguments that are left out
  | .applied name args span, n + 1 => by
    have hargs : (Decoder.list (decoderOfFuel n)).Reads n (.arr (argsToJson args)) args :=
      argsToJson_eq args ▸ .list (reads_args args n)
    exact reads_of_shape (reads_reference name (hargs.some notNull_list)) span
  | .array element span, n + 1 => by
    have hshape : (shapeDecoder (decoderOfFuel n)).Reads n (.obj [("Array", element.toJson)])
        (.array element) :=
      .variant rfl ((reads_decoderOfFuel element n).map _)
    exact reads_of_shape hshape span

/-- The same for all arguments of a type. -/
theorem reads_args : (ts : List TypeExpr) → (n : Nat) →
    ∀ t ∈ ts, (decoderOfFuel n).Reads n t.toJson t
  | [], _ => nofun
  | t :: ts, n => List.forall_mem_cons.mpr ⟨reads_decoderOfFuel t n, reads_args ts n⟩

end

/-- There is always fuel for one level more than the decoder may enter. -/
theorem reads (t : TypeExpr) (n : Nat) : decoder.Reads n t.toJson t :=
  fun hfloats levels _ => reads_decoderOfFuel t (levels + 1) hfloats levels (Nat.lt_succ_self _)

/-- A type is never read from `null`, so `null` can stand for a type that is left out. -/
theorem notNull_decoder : decoder.NotNull :=
  fun levels => notNull_record levels

end TypeExpr

/-! ## §2 Expressions -/

namespace Expr

variable {n : Nat}

/-- The arguments of a call are written one by one. -/
theorem argsToJson_eq (es : List Expr) : argsToJson es = es.map toJson := by
  induction es with
  | nil => rfl
  | cons e es ih => rw [argsToJson, ih, List.map_cons]

mutual

/-- An expression is read back. All its constructors are variants, and what they carry is a record
or a single part. -/
theorem reads_decoderOfFuel : (e : Expr) → (n : Nat) → (decoderOfFuel n).Reads n e.toJson e
  | _, 0 => fun _ _ hlt => absurd hlt (Nat.not_lt_zero _)
  | .int value span, n + 1 =>
    .variant_succ rfl (.record (.cons (reads_int64 value) <| .cons (span.reads n) .nil) (by simp) rfl)
  | .float value span, n + 1 =>
    .variant_succ rfl (.record (.cons (reads_float value) <| .cons (span.reads n) .nil) (by simp) rfl)
  | .string value span, n + 1 =>
    .variant_succ rfl (.record (.cons (reads_string value) <| .cons (span.reads n) .nil) (by simp) rfl)
  | .bool value span, n + 1 =>
    .variant_succ rfl (.record (.cons (reads_bool value) <| .cons (span.reads n) .nil) (by simp) rfl)
  | .null span, n + 1 => .variant_succ rfl ((span.reads n).map _)
  | .ident id, n + 1 => .variant_succ rfl ((id.reads n).map _)
  | .thisRef span, n + 1 => .variant_succ rfl ((span.reads n).map _)
  | .superRef span, n + 1 => .variant_succ rfl ((span.reads n).map _)
  | .member object property span, n + 1 =>
    .variant_succ rfl (.record (.cons (reads_decoderOfFuel object n) <| .cons (property.reads n) <|
      .cons (span.reads n) .nil) (by simp) rfl)
  -- what is written is the list of all arguments, and the recursion goes over its items
  | .call callee arguments span, n + 1 => by
    have hargs : (Decoder.list (decoderOfFuel n)).Reads n (.arr (argsToJson arguments)) arguments :=
      argsToJson_eq arguments ▸ .list (reads_args arguments n)
    exact .variant_succ rfl (.record (.cons (reads_decoderOfFuel callee n) <| .cons hargs <|
      .cons (span.reads n) .nil) (by simp) rfl)
  | .assign target value span, n + 1 =>
    .variant_succ rfl (.record (.cons (reads_decoderOfFuel target n) <|
      .cons (reads_decoderOfFuel value n) <| .cons (span.reads n) .nil) (by simp) rfl)

/-- The same for all arguments of a call. -/
theorem reads_args : (es : List Expr) → (n : Nat) → ∀ e ∈ es, (decoderOfFuel n).Reads n e.toJson e
  | [], _ => nofun
  | e :: es, n => List.forall_mem_cons.mpr ⟨reads_decoderOfFuel e n, reads_args es n⟩

end

/-- An expression is read back from its JSON form. -/
theorem reads (e : Expr) (n : Nat) : decoder.Reads n e.toJson e :=
  fun hfloats levels _ => reads_decoderOfFuel e (levels + 1) hfloats levels (Nat.lt_succ_self _)

/-- An expression is never read from `null`. -/
theorem notNull_decoder : decoder.NotNull :=
  fun levels => (notNull_variants : (stepDecoder (decoderOfFuel levels)).NotNull) levels

end Expr

/-! ## §3 Parameters and fields -/

theorem Storage.reads (s : Storage) (n : Nat) : Storage.decoder.Reads n s.toJson s :=
  reads_names (by cases s <;> rfl)

theorem Visibility.reads (v : Visibility) (n : Nat) : Visibility.decoder.Reads n v.toJson v :=
  reads_names (by cases v <;> rfl)

/-- The five keywords have five names. -/
theorem Keyword.reads (k : Keyword) (n : Nat) : Keyword.decoder.Reads n k.toJson k := by
  apply reads_names
  cases k with
  | storage kind => cases kind <;> rfl
  | visibility kind => cases kind <;> rfl
  | static => rfl

theorem Modifier.reads (m : Modifier) (n : Nat) : Modifier.decoder.Reads n m.toJson m :=
  .record (.cons (m.keyword.reads n) <| .cons (m.span.reads n) .nil) (by simp) rfl

theorem Metadata.reads (m : Metadata) (n : Nat) : Metadata.decoder.Reads n m.toJson m :=
  .record (.cons (m.name.reads n) <| .cons (.list fun e _ => e.reads n) <|
    .cons (m.span.reads n) .nil) (by simp) rfl

/-- A parameter is read back. Its type and its default value may be left out, as neither is read
from `null`. -/
theorem Param.reads (p : Param) (n : Nat) : Param.decoder.Reads n p.toJson p :=
  .record (.cons (.list fun m _ => m.reads n) <| .cons (.list fun m _ => m.reads n) <|
    .cons (p.name.reads n) <| .cons (.ofOption TypeExpr.notNull_decoder fun t _ => t.reads n) <|
    .cons (.ofOption Expr.notNull_decoder fun e _ => e.reads n) <|
    .cons (p.span.reads n) .nil) (by simp) rfl

theorem VarDecl.reads (d : VarDecl) (n : Nat) : VarDecl.decoder.Reads n d.toJson d :=
  .record (.cons (d.storage.reads n) <| .cons (d.name.reads n) <|
    .cons (.ofOption TypeExpr.notNull_decoder fun t _ => t.reads n) <|
    .cons (.ofOption Expr.notNull_decoder fun e _ => e.reads n) <|
    .cons (d.span.reads n) .nil) (by simp) rfl

/-- A field is read back with all its eight entries. -/
theorem FieldDecl.reads (d : FieldDecl) (n : Nat) : FieldDecl.decoder.Reads n d.toJson d :=
  .record (.cons (.list fun m _ => m.reads n) <| .cons (d.visibility.reads n) <|
    .cons (d.storage.reads n) <| .cons (reads_bool d.isStatic) <| .cons (d.name.reads n) <|
    .cons (.ofOption TypeExpr.notNull_decoder fun t _ => t.reads n) <|
    .cons (.ofOption Expr.notNull_decoder fun e _ => e.reads n) <|
    .cons (d.span.reads n) .nil) (by simp) rfl

/-! ## §4 Statements and classes -/

/-- The statements of a body are written one by one. -/
theorem Stmt.listToJson_eq (ss : List Stmt) : Stmt.listToJson ss = ss.map Stmt.toJson := by
  induction ss with
  | nil => rfl
  | cons s ss ih => rw [Stmt.listToJson, ih, List.map_cons]

/-- The members of a class are written one by one. -/
theorem Member.listToJson_eq (ms : List Member) : Member.listToJson ms = ms.map Member.toJson := by
  induction ms with
  | nil => rfl
  | cons m ms ih => rw [Member.listToJson, ih, List.map_cons]

/-- A statement is never read from `null`, which stands for an `else` that is left out. -/
theorem Stmt.notNull_decoderOfFuel (n : Nat) : (Stmt.decoderOfFuel n).NotNull := by
  cases n with
  | zero => exact fun _ _ => ⟨nofun, fun _ => nofun⟩
  | succ n => exact notNull_variants

mutual

/-- A statement is read back. Declarations, blocks and members contain statements, so they are read
back by the same recursion. -/
theorem Stmt.reads_decoderOfFuel : (s : Stmt) → (n : Nat) →
    (Stmt.decoderOfFuel n).Reads n s.toJson s
  | _, 0 => fun _ _ hlt => absurd hlt (Nat.not_lt_zero _)
  | .varDecl d, n + 1 => .variant_succ rfl ((d.reads n).map _)
  | .funDecl d, n + 1 => .variant_succ rfl ((FunDecl.reads_decoderOf d n).map _)
  | .classDecl d, n + 1 => .variant_succ rfl ((ClassDecl.reads_decoderOf d n).map _)
  | .expr e span, n + 1 =>
    .variant_succ rfl (.record (.cons (e.reads n) <| .cons (span.reads n) .nil) (by simp) rfl)
  -- an `else` that is left out is written as `null`
  | .cond c t none span, n + 1 =>
    .variant_succ rfl (.record (.cons (c.reads n) <| .cons (Stmt.reads_decoderOfFuel t n) <|
      .cons reads_none <| .cons (span.reads n) .nil) (by simp) rfl)
  | .cond c t (some e) span, n + 1 =>
    .variant_succ rfl (.record (.cons (c.reads n) <| .cons (Stmt.reads_decoderOfFuel t n) <|
      .cons ((Stmt.reads_decoderOfFuel e n).some (Stmt.notNull_decoderOfFuel n)) <|
      .cons (span.reads n) .nil) (by simp) rfl)
  | .loop c body span, n + 1 =>
    .variant_succ rfl (.record (.cons (c.reads n) <| .cons (Stmt.reads_decoderOfFuel body n) <|
      .cons (span.reads n) .nil) (by simp) rfl)
  | .ret value span, n + 1 =>
    .variant_succ rfl (.record (.cons (.ofOption Expr.notNull_decoder fun e _ => e.reads n) <|
      .cons (span.reads n) .nil) (by simp) rfl)
  | .block b, n + 1 => .variant_succ rfl ((Block.reads_decoderOf b n).map _)
  | .empty span, n + 1 => .variant_succ rfl ((span.reads n).map _)

/-- The same for all statements of a body. -/
theorem Stmt.reads_list : (ss : List Stmt) → (n : Nat) →
    ∀ s ∈ ss, (Stmt.decoderOfFuel n).Reads n s.toJson s
  | [], _ => nofun
  | s :: ss, n => List.forall_mem_cons.mpr ⟨Stmt.reads_decoderOfFuel s n, Stmt.reads_list ss n⟩

/-- A block is read back when its statements are. -/
theorem Block.reads_decoderOf : (b : Block) → (n : Nat) →
    (Block.decoderOf (Stmt.decoderOfFuel n)).Reads n b.toJson b
  | ⟨statements, span⟩, n => by
    have hstatements : (Decoder.list (Stmt.decoderOfFuel n)).Reads n
        (.arr (Stmt.listToJson statements)) statements :=
      Stmt.listToJson_eq statements ▸ .list (Stmt.reads_list statements n)
    exact .record (.cons hstatements <| .cons (span.reads n) .nil) (by simp) rfl

/-- A function is read back when its body is. -/
theorem FunDecl.reads_decoderOf : (d : FunDecl) → (n : Nat) →
    (FunDecl.decoderOf (Stmt.decoderOfFuel n)).Reads n d.toJson d
  | ⟨name, params, returns, body, span⟩, n =>
    .record (.cons (name.reads n) <| .cons (.list fun p _ => p.reads n) <|
      .cons (.ofOption TypeExpr.notNull_decoder fun t _ => t.reads n) <|
      .cons (Block.reads_decoderOf body n) <| .cons (span.reads n) .nil) (by simp) rfl

/-- A method is read back when its body is, if it has one. -/
theorem MethodDecl.reads_decoderOf : (d : MethodDecl) → (n : Nat) →
    (MethodDecl.decoderOf (Stmt.decoderOfFuel n)).Reads n d.toJson d
  | ⟨metadata, visibility, isAbstract, isStatic, name, params, returns, body, span⟩, n =>
    .record (.cons (.list fun m _ => m.reads n) <| .cons (visibility.reads n) <|
      .cons (reads_bool isAbstract) <| .cons (reads_bool isStatic) <| .cons (name.reads n) <|
      .cons (.list fun p _ => p.reads n) <|
      .cons (.ofOption TypeExpr.notNull_decoder fun t _ => t.reads n) <|
      .cons (Block.reads_optional body n) <| .cons (span.reads n) .nil) (by simp) rfl

/-- The body of an abstract method is written as `null`. -/
theorem Block.reads_optional : (b : Option Block) → (n : Nat) →
    (Decoder.optional (Block.decoderOf (Stmt.decoderOfFuel n))).Reads n (Block.optionToJson b) b
  | none, _ => reads_none
  | some b, n => (Block.reads_decoderOf b n).some notNull_record

/-- A constructor is read back when its body is. -/
theorem CtorDecl.reads_decoderOf : (d : CtorDecl) → (n : Nat) →
    (CtorDecl.decoderOf (Stmt.decoderOfFuel n)).Reads n d.toJson d
  | ⟨params, body, span⟩, n =>
    .record (.cons (.list fun p _ => p.reads n) <| .cons (Block.reads_decoderOf body n) <|
      .cons (span.reads n) .nil) (by simp) rfl

/-- A member is read back, whichever of the three kinds it is. -/
theorem Member.reads_decoderOf : (m : Member) → (n : Nat) →
    (Member.decoderOf (Stmt.decoderOfFuel n)).Reads n m.toJson m
  | .field d, n => .variant rfl ((d.reads n).map _)
  | .method d, n => .variant rfl ((MethodDecl.reads_decoderOf d n).map _)
  | .ctor d, n => .variant rfl ((CtorDecl.reads_decoderOf d n).map _)

/-- The same for all members of a class. -/
theorem Member.reads_list : (ms : List Member) → (n : Nat) →
    ∀ m ∈ ms, (Member.decoderOf (Stmt.decoderOfFuel n)).Reads n m.toJson m
  | [], _ => nofun
  | m :: ms, n => List.forall_mem_cons.mpr ⟨Member.reads_decoderOf m n, Member.reads_list ms n⟩

/-- A class is read back when its members are. -/
theorem ClassDecl.reads_decoderOf : (d : ClassDecl) → (n : Nat) →
    (ClassDecl.decoderOf (Stmt.decoderOfFuel n)).Reads n d.toJson d
  | ⟨metadata, isAbstract, name, superclass, members, span⟩, n => by
    have hmembers : (Decoder.list (Member.decoderOf (Stmt.decoderOfFuel n))).Reads n
        (.arr (Member.listToJson members)) members :=
      Member.listToJson_eq members ▸ .list (Member.reads_list members n)
    exact .record (.cons (.list fun m _ => m.reads n) <| .cons (reads_bool isAbstract) <|
      .cons (name.reads n) <| .cons (.ofOption notNull_record fun id _ => id.reads n) <|
      .cons hmembers <| .cons (span.reads n) .nil) (by simp) rfl

end

/-- A statement is read back from its JSON form. -/
theorem Stmt.reads (s : Stmt) (n : Nat) : Stmt.decoder.Reads n s.toJson s :=
  fun hfloats levels _ => s.reads_decoderOfFuel (levels + 1) hfloats levels (Nat.lt_succ_self _)

namespace Module

/-- A module is read back from its JSON form. -/
theorem reads (m : Module) (n : Nat) : Module.decoder.Reads n m.toJson m := by
  have hstatements : (Decoder.list Stmt.decoder).Reads n (.arr (Stmt.listToJson m.statements))
      m.statements :=
    Stmt.listToJson_eq m.statements ▸ .list fun s _ => s.reads n
  exact .record (.cons hstatements <| .cons (m.span.reads n) .nil) (by simp) rfl

/-- A module is read back from its text, in either layout, if its JSON form is not nested too deep and
its doubles are read back from their texts. -/
theorem read_render_toJson (m : Module) (style : Style)
    (hdepth : m.toJson.depth ≤ Decoder.maxDepth) (hfloats : ∀ x ∈ m.toJson.floats, ReadsBack x) :
    Module.decoder.read (m.toJson.render style) = .ok m :=
  (m.reads _).read_render hfloats hdepth style

/-- A module with nodes of many kinds, extreme numbers, and characters that have to be escaped. -/
def gallery : Module where
  statements :=
    [.classDecl
      ⟨[{ name := { name := "tag" }
          args := [.float 0.1 {}, .float (-1e300) {}, .int (-9223372036854775808) {}] }],
        true, { name := "Größe" }, some { name := "Base" },
        [.field
          { visibility := .pub
            storage := .final
            name := { name := "limit" }
            type := some (.array (.applied { name := "Map" }
              [.primitive .string {}, .named { name := "T" } {}] {}) {})
            init := some (.string "a \"quote\",\na \\ and \x01" {}) },
         .ctor ⟨[{ (Param.named "x").withModifier (.storage .var) with
              defaultValue := some (.float 5e-324 {}) }],
            ⟨[.expr (.assign (.member (.thisRef {}) { name := "y" } {}) (.ident { name := "x" }) {}) {}],
              {}⟩, {}⟩,
         .method ⟨[], .priv, true, false, { name := "area" }, [], some (.primitive .float {}), none, {}⟩],
        { start := 0, stop := 18446744073709551615, line := 4294967295, column := 1 }⟩,
     .funDecl ⟨{ name := "run" }, [.named "list"], none,
        ⟨[.varDecl { storage := .var, name := { name := "i" } },
          .loop (.bool true {}) (.cond (.null {}) (.ret none {})
            (some (.block ⟨[.empty {}, .expr (.call (.superRef {}) [] {}) {}], {}⟩)) {}) {}], {}⟩, {}⟩]

/-- The module `gallery` is read back from both of its texts. -/
theorem read_render_gallery :
    gallery.toJson.depth ≤ Decoder.maxDepth ∧ (∀ x ∈ gallery.toJson.floats, ReadsBack x) ∧
      Module.decoder.read gallery.toJson.compact = .ok gallery ∧
      Module.decoder.read gallery.toJson.pretty = .ok gallery := by
  -- both conditions can be computed
  have hdepth : gallery.toJson.depth ≤ Decoder.maxDepth := by decide
  have hfloats : ∀ x ∈ gallery.toJson.floats, ReadsBack x := by decide +kernel
  exact ⟨hdepth, hfloats, gallery.read_render_toJson .compact hdepth hfloats,
    gallery.read_render_toJson .pretty hdepth hfloats⟩

end Module

end FieldPromotion
