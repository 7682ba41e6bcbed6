import FieldPromotion.Tree.Print
import Mathlib.Data.List.Basic

/-!
# Trees without spans

A bare tree has the default span at every node. Two trees with the same bare tree differ in nothing but
where they were written. The source text of a tree is that of its bare tree.
-/

namespace FieldPromotion

/-! ## §1 Names, types and expressions -/

def Ident.bare (id : Ident) : Ident where
  name := id.name

namespace TypeExpr

mutual

/-- A type annotation without its spans. -/
def bare : TypeExpr → TypeExpr
  | .primitive kind _ => .primitive kind {}
  | .named name _ => .named name.bare {}
  | .applied name args _ => .applied name.bare (bareAll args) {}
  | .array element _ => .array element.bare {}

def bareAll : List TypeExpr → List TypeExpr
  | [] => []
  | t :: ts => t.bare :: bareAll ts

end

end TypeExpr

namespace Expr

mutual

/-- An expression without its spans. -/
def bare : Expr → Expr
  | .int value _ => .int value {}
  | .float value _ => .float value {}
  | .string value _ => .string value {}
  | .bool value _ => .bool value {}
  | .null _ => .null {}
  | .ident id => .ident id.bare
  | .thisRef _ => .thisRef {}
  | .superRef _ => .superRef {}
  | .member object property _ => .member object.bare property.bare {}
  | .call callee arguments _ => .call callee.bare (bareAll arguments) {}
  | .assign target value _ => .assign target.bare value.bare {}

def bareAll : List Expr → List Expr
  | [] => []
  | e :: es => e.bare :: bareAll es

end

end Expr

/-! ## §2 Parameters and fields -/

def Modifier.bare (m : Modifier) : Modifier where
  keyword := m.keyword

def Metadata.bare (m : Metadata) : Metadata where
  name := m.name.bare
  args := Expr.bareAll m.args

def Param.bare (p : Param) : Param where
  metadata := p.metadata.map Metadata.bare
  modifiers := p.modifiers.map Modifier.bare
  name := p.name.bare
  type := p.type.map TypeExpr.bare
  defaultValue := p.defaultValue.map Expr.bare

def VarDecl.bare (d : VarDecl) : VarDecl where
  storage := d.storage
  name := d.name.bare
  type := d.type.map TypeExpr.bare
  init := d.init.map Expr.bare

def FieldDecl.bare (d : FieldDecl) : FieldDecl where
  metadata := d.metadata.map Metadata.bare
  visibility := d.visibility
  storage := d.storage
  isStatic := d.isStatic
  name := d.name.bare
  type := d.type.map TypeExpr.bare
  init := d.init.map Expr.bare

/-! ## §3 Statements and classes -/

mutual

/-- A statement without its spans. -/
def Stmt.bare : Stmt → Stmt
  | .varDecl d => .varDecl d.bare
  | .funDecl ⟨name, params, returns, ⟨statements, _⟩, _⟩ =>
    .funDecl ⟨name.bare, params.map Param.bare, returns.map TypeExpr.bare,
      ⟨Stmt.bareAll statements, {}⟩, {}⟩
  | .classDecl ⟨metadata, isAbstract, name, superclass, members, _⟩ =>
    .classDecl ⟨metadata.map Metadata.bare, isAbstract, name.bare, superclass.map Ident.bare,
      Member.bareAll members, {}⟩
  | .expr e _ => .expr e.bare {}
  | .cond c t none _ => .cond c.bare t.bare none {}
  | .cond c t (some e) _ => .cond c.bare t.bare (some e.bare) {}
  | .loop c body _ => .loop c.bare body.bare {}
  | .ret value _ => .ret (value.map Expr.bare) {}
  | .block ⟨statements, _⟩ => .block ⟨Stmt.bareAll statements, {}⟩
  | .empty _ => .empty {}

def Stmt.bareAll : List Stmt → List Stmt
  | [] => []
  | s :: ss => s.bare :: Stmt.bareAll ss

/-- A member of a class without its spans. -/
def Member.bare : Member → Member
  | .field d => .field d.bare
  | .method ⟨metadata, visibility, isAbstract, isStatic, name, params, returns, none, _⟩ =>
    .method ⟨metadata.map Metadata.bare, visibility, isAbstract, isStatic, name.bare,
      params.map Param.bare, returns.map TypeExpr.bare, none, {}⟩
  | .method ⟨metadata, visibility, isAbstract, isStatic, name, params, returns,
      some ⟨statements, _⟩, _⟩ =>
    .method ⟨metadata.map Metadata.bare, visibility, isAbstract, isStatic, name.bare,
      params.map Param.bare, returns.map TypeExpr.bare, some ⟨Stmt.bareAll statements, {}⟩, {}⟩
  | .ctor ⟨params, ⟨statements, _⟩, _⟩ =>
    .ctor ⟨params.map Param.bare, ⟨Stmt.bareAll statements, {}⟩, {}⟩

def Member.bareAll : List Member → List Member
  | [] => []
  | m :: ms => m.bare :: Member.bareAll ms

end

/-! ## §4 Texts -/

mutual

/-- Types have no positions in their text. -/
theorem TypeExpr.print_bare : (t : TypeExpr) → t.bare.print = t.print
  | .primitive _ _ => by simp [TypeExpr.bare, TypeExpr.print]
  | .named _ _ => by simp [TypeExpr.bare, TypeExpr.print, Ident.bare]
  | .applied _ args _ => by
    simp [TypeExpr.bare, TypeExpr.print, Ident.bare, TypeExpr.printAll_bareAll args]
  | .array element _ => by simp [TypeExpr.bare, TypeExpr.print, TypeExpr.print_bare element]

theorem TypeExpr.printAll_bareAll : (ts : List TypeExpr) →
    TypeExpr.printAll (TypeExpr.bareAll ts) = TypeExpr.printAll ts
  | [] => rfl
  | t :: ts => by
    simp [TypeExpr.bareAll, TypeExpr.printAll, TypeExpr.print_bare t, TypeExpr.printAll_bareAll ts]

end

mutual

/-- Neither have expressions. -/
theorem Expr.print_bare : (e : Expr) → e.bare.print = e.print
  | .int _ _ => by simp [Expr.bare, Expr.print]
  | .float _ _ => by simp [Expr.bare, Expr.print]
  | .string _ _ => by simp [Expr.bare, Expr.print]
  | .bool _ _ => by simp [Expr.bare, Expr.print]
  | .null _ => by simp [Expr.bare, Expr.print]
  | .ident _ => by simp [Expr.bare, Expr.print, Ident.bare]
  | .thisRef _ => by simp [Expr.bare, Expr.print]
  | .superRef _ => by simp [Expr.bare, Expr.print]
  | .member object _ _ => by simp [Expr.bare, Expr.print, Ident.bare, Expr.print_bare object]
  | .call callee arguments _ => by
    simp [Expr.bare, Expr.print, Expr.print_bare callee, Expr.printAll_bareAll arguments]
  | .assign target value _ => by
    simp [Expr.bare, Expr.print, Expr.print_bare target, Expr.print_bare value]

theorem Expr.printAll_bareAll : (es : List Expr) →
    Expr.printAll (Expr.bareAll es) = Expr.printAll es
  | [] => rfl
  | e :: es => by
    simp [Expr.bareAll, Expr.printAll, Expr.print_bare e, Expr.printAll_bareAll es]

end

theorem TypeExpr.printAfterColon_bare (t : Option TypeExpr) :
    TypeExpr.printAfterColon (t.map TypeExpr.bare) = TypeExpr.printAfterColon t := by
  cases t <;> simp [TypeExpr.printAfterColon, TypeExpr.print_bare]

theorem Expr.printAfterEquals_bare (e : Option Expr) :
    Expr.printAfterEquals (e.map Expr.bare) = Expr.printAfterEquals e := by
  cases e <;> simp [Expr.printAfterEquals, Expr.print_bare]

/-- Neither has metadata, which has expressions in it. -/
theorem Metadata.print_bare (m : Metadata) : m.bare.print = m.print := by
  have hempty : m.bare.args.isEmpty = m.args.isEmpty := by
    cases hargs : m.args <;> simp [Metadata.bare, hargs, Expr.bareAll]
  rw [Metadata.print, Metadata.print, hempty, Metadata.bare, Expr.printAll_bareAll, Ident.bare]

theorem Metadata.printAll_bare (ms : List Metadata) :
    Metadata.printAll (ms.map Metadata.bare) = Metadata.printAll ms := by
  simp [Metadata.printAll, Function.comp_def, Metadata.print_bare]

/-- A parameter is written by its parts, and none of them has positions in its text. -/
theorem Param.print_bare (p : Param) : p.bare.print = p.print := by
  simp [Param.print, Param.bare, Ident.bare, Modifier.bare, Function.comp_def,
    Metadata.printAll_bare, TypeExpr.printAfterColon_bare, Expr.printAfterEquals_bare]

theorem Param.printAll_bare (ps : List Param) :
    Param.printAll (ps.map Param.bare) = Param.printAll ps := by
  simp [Param.printAll, Function.comp_def, Param.print_bare]

/-- The same is true of variables. -/
theorem VarDecl.print_bare (d : VarDecl) : d.bare.print = d.print := by
  simp [VarDecl.print, VarDecl.bare, Ident.bare, TypeExpr.printAfterColon_bare,
    Expr.printAfterEquals_bare]

/-- And of fields. -/
theorem FieldDecl.print_bare (d : FieldDecl) : d.bare.print = d.print := by
  rw [FieldDecl.print, FieldDecl.bare, Metadata.printAll_bare, TypeExpr.printAfterColon_bare,
    Expr.printAfterEquals_bare]
  rfl

/-- The signature of a function or method has no positions in its text. -/
theorem printSignature_bare (name : Ident) (params : List Param) (returns : Option TypeExpr) :
    printSignature name.bare (params.map Param.bare) (returns.map TypeExpr.bare) =
      printSignature name params returns := by
  simp [printSignature, Ident.bare, Param.printAll_bare, TypeExpr.printAfterColon_bare]

/-- Neither has the header of a class. -/
theorem printClassHeader_bare (metadata : List Metadata) (isAbstract : Bool) (name : Ident)
    (superclass : Option Ident) :
    printClassHeader (metadata.map Metadata.bare) isAbstract name.bare (superclass.map Ident.bare) =
      printClassHeader metadata isAbstract name superclass := by
  cases superclass <;> simp [printClassHeader, Ident.bare, Metadata.printAll_bare]

/-! ## §5 Statements under a header -/

/-- A header with a statement below it. A block opens on the line of the header. -/
def printUnder (depth : Nat) (header : String) : Stmt → String
  | .block ⟨statements, _⟩ =>
    braced depth (header ++ " ") (Stmt.printAllAt (depth + 1) statements)
  | s => line depth header ++ s.printAt (depth + 1)

/-- Any other statement stands on lines of its own. -/
theorem printUnder_of_ne {s : Stmt} (hs : ∀ b, s ≠ .block b) (depth : Nat) (header : String) :
    printUnder depth header s = line depth header ++ s.printAt (depth + 1) := by
  cases s with
  | block b => exact absurd rfl (hs b)
  | _ => rfl

theorem Stmt.printAt_cond_none (depth : Nat) (c : Expr) (t : Stmt) (span : Span) :
    (Stmt.cond c t none span).printAt depth = printUnder depth ("if (" ++ c.print ++ ")") t := by
  cases t with
  | block b =>
    cases b
    simp [Stmt.printAt, printUnder, String.append_assoc]
  | _ => simp [Stmt.printAt, printUnder]

theorem Stmt.printAt_cond_some (depth : Nat) (c : Expr) (t e : Stmt) (span : Span) :
    (Stmt.cond c t (some e) span).printAt depth =
      printUnder depth ("if (" ++ c.print ++ ")") t ++ printUnder depth "else" e := by
  rw [← Stmt.printAt_cond_none depth c t span, Stmt.printAt.eq_def]
  refine congrArg₂ (· ++ ·) ?_ ?_
  · cases t with
    | block b =>
      cases b
      rw [Stmt.printAt]
    | _ => simp [Stmt.printAt]
  · cases e with
    | block b =>
      cases b
      rfl
    | _ => rfl

/-- Loops and conditionals are written alike: a header, and a statement under it. -/
theorem Stmt.printAt_loop (depth : Nat) (c : Expr) (body : Stmt) (span : Span) :
    (Stmt.loop c body span).printAt depth =
      printUnder depth ("while (" ++ c.print ++ ")") body := by
  cases body with
  | block b =>
    cases b
    simp [Stmt.printAt, printUnder, String.append_assoc]
  | _ => simp [Stmt.printAt, printUnder]

/-- The same statement stands under the header, whether or not it is bare. -/
theorem printUnder_bare {s : Stmt} (h : ∀ depth, s.bare.printAt depth = s.printAt depth)
    (depth : Nat) (header : String) : printUnder depth header s.bare = printUnder depth header s := by
  cases s with
  | block b =>
    obtain ⟨statements, span⟩ := b
    have hblock := h depth
    -- the text of the block has the text inside between its braces
    simp only [Stmt.bare, Stmt.printAt, braced, String.append_left_inj,
      String.append_right_inj] at hblock
    simp only [Stmt.bare, printUnder, hblock]
  | funDecl d =>
    obtain ⟨_, _, _, ⟨_, _⟩, _⟩ := d
    simpa [printUnder, Stmt.bare] using h (depth + 1)
  | classDecl d =>
    cases d
    simpa [printUnder, Stmt.bare] using h (depth + 1)
  | cond c t e span =>
    cases e <;> simpa [printUnder, Stmt.bare] using h (depth + 1)
  | _ => simpa [printUnder, Stmt.bare] using h (depth + 1)

mutual

/-- The text of a statement does not depend on its spans. -/
theorem Stmt.printAt_bare : (s : Stmt) → (depth : Nat) → s.bare.printAt depth = s.printAt depth
  | .varDecl d, depth => by simp [Stmt.bare, Stmt.printAt, VarDecl.print_bare]
  | .funDecl ⟨name, params, returns, ⟨statements, _⟩, _⟩, depth => by
    simp [Stmt.bare, Stmt.printAt, printSignature_bare, Stmt.printAllAt_bareAll statements]
  | .classDecl ⟨metadata, isAbstract, name, superclass, members, _⟩, depth => by
    simp [Stmt.bare, Stmt.printAt, printClassHeader_bare, Member.printAllAt_bareAll members]
  | .expr e _, depth => by simp [Stmt.bare, Stmt.printAt, Expr.print_bare]
  -- whether a branch stands under a header as a block does not depend on positions
  | .cond c t none _, depth => by
    rw [Stmt.bare, Stmt.printAt_cond_none, Stmt.printAt_cond_none, Expr.print_bare,
      printUnder_bare (Stmt.printAt_bare t)]
  | .cond c t (some e) _, depth => by
    rw [Stmt.bare, Stmt.printAt_cond_some, Stmt.printAt_cond_some,
      Expr.print_bare, printUnder_bare (Stmt.printAt_bare t), printUnder_bare (Stmt.printAt_bare e)]
  | .loop c body _, depth => by
    rw [Stmt.bare, Stmt.printAt_loop, Stmt.printAt_loop, Expr.print_bare,
      printUnder_bare (Stmt.printAt_bare body)]
  | .ret none _, depth => by simp [Stmt.bare, Stmt.printAt]
  | .ret (some e) _, depth => by simp [Stmt.bare, Stmt.printAt, Expr.print_bare]
  | .block ⟨statements, _⟩, depth => by
    simp [Stmt.bare, Stmt.printAt, Stmt.printAllAt_bareAll statements]
  | .empty _, depth => by simp [Stmt.bare, Stmt.printAt]

theorem Stmt.printAllAt_bareAll : (ss : List Stmt) → (depth : Nat) →
    Stmt.printAllAt depth (Stmt.bareAll ss) = Stmt.printAllAt depth ss
  | [], _ => rfl
  | s :: ss, depth => by
    simp [Stmt.bareAll, Stmt.printAllAt, Stmt.printAt_bare s, Stmt.printAllAt_bareAll ss]

/-- The text of a member at any depth has no positions in it. -/
theorem Member.printAt_bare : (m : Member) → (depth : Nat) → m.bare.printAt depth = m.printAt depth
  | .field d, depth => by simp [Member.bare, Member.printAt, FieldDecl.print_bare]
  | .method ⟨metadata, visibility, isAbstract, isStatic, name, params, returns, none, _⟩, depth => by
    simp [Member.bare, Member.printAt, printMethodHeader, Metadata.printAll_bare,
      printSignature_bare]
  | .method ⟨metadata, visibility, isAbstract, isStatic, name, params, returns,
      some ⟨statements, _⟩, _⟩, depth => by
    simp [Member.bare, Member.printAt, printMethodHeader, Metadata.printAll_bare,
      printSignature_bare, Stmt.printAllAt_bareAll statements]
  | .ctor ⟨params, ⟨statements, _⟩, _⟩, depth => by
    simp [Member.bare, Member.printAt, Param.printAll_bare, Stmt.printAllAt_bareAll statements]

theorem Member.printAllAt_bareAll : (ms : List Member) → (depth : Nat) →
    Member.printAllAt depth (Member.bareAll ms) = Member.printAllAt depth ms
  | [], _ => rfl
  | m :: ms, depth => by
    simp [Member.bareAll, Member.printAllAt, Member.printAt_bare m, Member.printAllAt_bareAll ms]

end

end FieldPromotion
