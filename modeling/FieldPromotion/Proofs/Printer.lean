import FieldPromotion.Proofs.SpanReset

/-!
# A printer with a depth

A printer writes line after line and keeps a depth, which it raises before what stands inside a
statement and lowers after it. It writes what `Stmt.printAt` gives for its depth, and the depth is the
same after a statement as before.
-/

namespace FieldPromotion

/-! ## §1 A printer with a depth -/

/-- What has been written, and how deep the next line stands. -/
structure Printer where
  out : String := ""
  depth : Nat := 0

namespace Printer

/-- Writes a line, after four blanks for each level of the depth. -/
def line (p : Printer) (text : String) : Printer :=
  { p with out := Nat.repeat (· ++ "    ") p.depth p.out ++ text ++ "\n" }

def deeper (p : Printer) : Printer :=
  { p with depth := p.depth + 1 }

def shallower (p : Printer) : Printer :=
  { p with depth := p.depth - 1 }

mutual

def statement (p : Printer) : Stmt → Printer
  | .varDecl d => p.line d.print
  | .funDecl ⟨name, params, returns, ⟨statements, _⟩, _⟩ =>
    p.braced (printSignature name params returns ++ " ") statements
  | .classDecl d => p.classDecl d
  | .expr e _ => p.line (e.print ++ ";")
  | .cond c t none _ => p.nested ("if (" ++ c.print ++ ")") t
  | .cond c t (some e) _ => (p.nested ("if (" ++ c.print ++ ")") t).nested "else" e
  | .loop c body _ => p.nested ("while (" ++ c.print ++ ")") body
  | .ret none _ => p.line "return;"
  | .ret (some e) _ => p.line ("return " ++ e.print ++ ";")
  | .block ⟨statements, _⟩ => p.braced "" statements
  | .empty _ => p.line ";"
termination_by s => (sizeOf s, 0)

/-- A header and the statement under it. A block opens on the line of the header. -/
def nested (p : Printer) (header : String) : Stmt → Printer
  | .block ⟨statements, _⟩ => p.braced (header ++ " ") statements
  | s => ((p.line header).deeper.statement s).shallower
termination_by s => (sizeOf s, 1)

/-- A header that opens a brace, statements inside, and the closing brace. -/
def braced (p : Printer) (header : String) (statements : List Stmt) : Printer :=
  (((p.line (header ++ "\x7b")).deeper.statements statements).shallower).line "\x7d"
termination_by (sizeOf statements, 1)

def statements (p : Printer) : List Stmt → Printer
  | [] => p
  | s :: ss => (p.statement s).statements ss
termination_by ss => (sizeOf ss, 0)

def classDecl (p : Printer) : ClassDecl → Printer
  | ⟨metadata, isAbstract, name, superclass, members, _⟩ =>
    (((p.line (printClassHeader metadata isAbstract name superclass ++ " " ++ "\x7b")).deeper.members
      members).shallower).line "\x7d"
termination_by d => (sizeOf d, 0)

def member (p : Printer) : Member → Printer
  | .field d => p.line d.print
  | .method ⟨metadata, visibility, isAbstract, isStatic, name, params, returns, none, _⟩ =>
    p.line (printMethodHeader metadata visibility isAbstract isStatic name params returns ++ ";")
  | .method ⟨metadata, visibility, isAbstract, isStatic, name, params, returns,
      some ⟨statements, _⟩, _⟩ =>
    p.braced (printMethodHeader metadata visibility isAbstract isStatic name params returns ++ " ")
      statements
  | .ctor ⟨params, ⟨statements, _⟩, _⟩ =>
    p.braced ("new(" ++ Param.printAll params ++ ") ") statements
termination_by m => (sizeOf m, 0)

def members (p : Printer) : List Member → Printer
  | [] => p
  | m :: ms => (p.member m).members ms
termination_by ms => (sizeOf ms, 0)

end

end Printer

/-! ## §2 What the printer writes -/

/-- One level is four blanks. -/
theorem indent_succ (depth : Nat) : indent (depth + 1) = indent depth ++ "    " := by
  rw [← String.toList_inj]
  simp [indent, Nat.mul_add, List.replicate_add]

namespace Printer

/-- More text, at the same depth. -/
def write (p : Printer) (text : String) : Printer :=
  { p with out := p.out ++ text }

@[simp] theorem depth_write (p : Printer) (text : String) : (p.write text).depth = p.depth := rfl

/-- Writing twice is writing both texts at once. -/
theorem write_write (p : Printer) (a b : String) : (p.write a).write b = p.write (a ++ b) := by
  simp [write, String.append_assoc]

/-- The blanks that are written one level at a time are the indentation. -/
theorem repeat_blanks (n : Nat) (out : String) :
    Nat.repeat (· ++ "    ") n out = out ++ indent n := by
  induction n with
  | zero => simp [Nat.repeat, indent]
  | succ n ih => rw [Nat.repeat, ih, indent_succ, String.append_assoc]

/-- A line is written at the depth of the printer. -/
theorem line_eq (p : Printer) (text : String) :
    p.line text = p.write (FieldPromotion.line p.depth text) := by
  simp [line, write, FieldPromotion.line, repeat_blanks, String.append_assoc]

/-- Between two lines at the depth of the printer, text is written one level deeper. -/
theorem line_shallower_deeper_line (p : Printer) (opening inside closing : String) :
    (((p.line opening).deeper.write inside).shallower).line closing =
      p.write
        (FieldPromotion.line p.depth opening ++ inside ++ FieldPromotion.line p.depth closing) := by
  -- raising the depth and lowering it again cancel, since it is never lowered at zero
  have hdepth :
      ((p.line opening).deeper.write inside).shallower = (p.line opening).write inside := rfl
  rw [hdepth, line_eq, line_eq, write_write, write_write]
  simp only [depth_write, String.append_assoc]

/-- A block is written one level further down, and the printer is back at its depth afterwards. -/
theorem braced_eq {ss : List Stmt}
    (h : ∀ p : Printer, p.statements ss = p.write (Stmt.printAllAt p.depth ss))
    (p : Printer) (header : String) :
    p.braced header ss =
      p.write (FieldPromotion.braced p.depth header (Stmt.printAllAt (p.depth + 1) ss)) := by
  rw [braced, h, line_shallower_deeper_line]
  rfl

end Printer

/-- A printer writes the text of the statement at its depth, alone and under a header, and keeps the
depth. -/
structure Stmt.IsWritten (s : Stmt) : Prop where
  alone : ∀ p : Printer, p.statement s = p.write (s.printAt p.depth)
  under : ∀ (p : Printer) (header : String),
    p.nested header s = p.write (printUnder p.depth header s)

/-- Only a block stands under a header in another way than alone. -/
theorem Stmt.IsWritten.of_alone {s : Stmt} (hs : ∀ b, s ≠ .block b)
    (h : ∀ p : Printer, p.statement s = p.write (s.printAt p.depth)) : s.IsWritten where
  alone := h
  under p header := by
    have hnested : p.nested header s = ((p.line header).deeper.statement s).shallower := by
      cases s with
      | block b => exact absurd rfl (hs b)
      | _ => rw [Printer.nested]; simp
    rw [hnested, h, printUnder_of_ne hs, Printer.line_eq, ← Printer.write_write]
    rfl

mutual

/-- Every statement is written as its text at the depth of the printer. -/
theorem Stmt.isWritten : (s : Stmt) → s.IsWritten
  | .varDecl d => .of_alone (by simp) fun p => by
    rw [Printer.statement, Printer.line_eq, Stmt.printAt]
  | .funDecl ⟨_, _, _, ⟨statements, _⟩, _⟩ => .of_alone (by simp) fun p => by
    rw [Printer.statement, Printer.braced_eq (Stmt.statements_eq statements), Stmt.printAt]
  | .classDecl ⟨_, _, _, _, members, _⟩ => .of_alone (by simp) fun p => by
    rw [Printer.statement, Printer.classDecl, Member.members_eq members,
      Printer.line_shallower_deeper_line, Stmt.printAt]
    rfl
  | .expr e _ => .of_alone (by simp) fun p => by
    rw [Printer.statement, Printer.line_eq, Stmt.printAt]
  | .cond c t none _ => .of_alone (by simp) fun p => by
    rw [Printer.statement, (Stmt.isWritten t).under, Stmt.printAt_cond_none]
  | .cond c t (some e) _ => .of_alone (by simp) fun p => by
    -- the second branch is written at the depth that is left after the first one
    rw [Printer.statement, (Stmt.isWritten t).under, (Stmt.isWritten e).under,
      Stmt.printAt_cond_some, Printer.write_write, Printer.depth_write]
  | .loop c body _ => .of_alone (by simp) fun p => by
    rw [Printer.statement, (Stmt.isWritten body).under, Stmt.printAt_loop]
  | .ret none _ => .of_alone (by simp) fun p => by
    rw [Printer.statement, Printer.line_eq, Stmt.printAt]
  | .ret (some e) _ => .of_alone (by simp) fun p => by
    rw [Printer.statement, Printer.line_eq, Stmt.printAt]
  | .block ⟨statements, _⟩ => by
    -- the one statement that does not open its own line under a header
    have hbraced := Printer.braced_eq (Stmt.statements_eq statements)
    refine ⟨fun p => ?_, fun p header => ?_⟩
    · rw [Printer.statement, hbraced, Stmt.printAt]
    · rw [Printer.nested, hbraced, printUnder]
  | .empty _ => .of_alone (by simp) fun p => by
    rw [Printer.statement, Printer.line_eq, Stmt.printAt]

/-- So are several statements. -/
theorem Stmt.statements_eq : (ss : List Stmt) → ∀ p : Printer,
    p.statements ss = p.write (Stmt.printAllAt p.depth ss)
  | [], p => by simp [Printer.statements, Stmt.printAllAt, Printer.write]
  | s :: ss, p => by
    rw [Printer.statements, (Stmt.isWritten s).alone, Stmt.statements_eq ss, Printer.write_write,
      Stmt.printAllAt, Printer.depth_write]

/-- So is a member. -/
theorem Member.member_eq : (m : Member) → ∀ p : Printer, p.member m = p.write (m.printAt p.depth)
  | .field d, p => by rw [Printer.member, Printer.line_eq, Member.printAt]
  | .method ⟨_, _, _, _, _, _, _, none, _⟩, p => by
    rw [Printer.member, Printer.line_eq, Member.printAt]
  | .method ⟨_, _, _, _, _, _, _, some ⟨statements, _⟩, _⟩, p => by
    rw [Printer.member, Printer.braced_eq (Stmt.statements_eq statements), Member.printAt]
  | .ctor ⟨_, ⟨statements, _⟩, _⟩, p => by
    rw [Printer.member, Printer.braced_eq (Stmt.statements_eq statements), Member.printAt]

/-- So are several members. -/
theorem Member.members_eq : (ms : List Member) → ∀ p : Printer,
    p.members ms = p.write (Member.printAllAt p.depth ms)
  | [], p => by simp [Printer.members, Member.printAllAt, Printer.write]
  | m :: ms, p => by
    rw [Printer.members, Member.member_eq m, Member.members_eq ms, Printer.write_write,
      Member.printAllAt, Printer.depth_write]

end

end FieldPromotion
