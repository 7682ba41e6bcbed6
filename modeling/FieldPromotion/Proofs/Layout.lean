import FieldPromotion.Proofs.Printer
import FieldPromotion.Proofs.SingleLines
import FieldPromotion.Tree.Build

/-!
# Layout of statements

A statement is written as the same lines at every depth, and the depth tells how far they are shifted to
the right. So a printer writes at some depth the text of the statement alone, shifted, and the same holds
of every statement inside it.
-/

namespace FieldPromotion

/-! ## §1 Shifted texts -/

/-- A text with blanks in front of each of its lines. The flag tells whether a line starts here. -/
def shiftFrom (blanks : List Char) : Bool → List Char → List Char
  | _, [] => []
  | starts, c :: cs => (if starts then blanks else []) ++ c :: shiftFrom blanks (c == '\n') cs

/-- A text with four spaces for each level in front of each of its lines. -/
def shift (levels : Nat) (text : String) : String :=
  String.ofList (shiftFrom (List.replicate (4 * levels) ' ') true text.toList)

/-- Every line of a text ends with a newline. -/
def EndsLines (text : String) : Prop :=
  ∀ c ∈ text.toList.getLast?, c = '\n'

/-- After the first character of a line, the text stays as it is up to the end of the line. -/
theorem shiftFrom_false {blanks l : List Char} (h : '\n' ∉ l) (rest : List Char) :
    shiftFrom blanks false (l ++ '\n' :: rest) = l ++ '\n' :: shiftFrom blanks true rest := by
  induction l with
  | nil => simp [shiftFrom]
  | cons c l ih =>
    obtain ⟨hc, hl⟩ : '\n' ≠ c ∧ '\n' ∉ l := by simpa using h
    have hflag : (c == '\n') = false := by simpa using hc.symm
    simp [shiftFrom, hflag, ih hl]

/-- The blanks go to the start of the line, and the next line is treated in the same way. -/
theorem shiftFrom_true {blanks l : List Char} (h : '\n' ∉ l) (rest : List Char) :
    shiftFrom blanks true (l ++ '\n' :: rest) =
      blanks ++ l ++ '\n' :: shiftFrom blanks true rest := by
  cases l with
  | nil => simp [shiftFrom]
  | cons c l =>
    obtain ⟨hc, hl⟩ : '\n' ≠ c ∧ '\n' ∉ l := by simpa using h
    have hflag : (c == '\n') = false := by simpa using hc.symm
    simp [shiftFrom, hflag, shiftFrom_false hl]

/-- Lines are shifted one by one. -/
theorem shift_join {lines : List String} (h : ∀ l ∈ lines, '\n' ∉ l.toList) (levels : Nat) :
    shift levels (String.join (lines.map (line 0))) = String.join (lines.map (line levels)) := by
  rw [← String.toList_inj, shift, String.toList_ofList, String.toList_join, String.toList_join]
  induction lines with
  | nil => rfl
  | cons l ls ih =>
    rw [List.forall_mem_cons] at h
    have hline : (line 0 l).toList = l.toList ++ ['\n'] := by simp [line, indent]
    rw [List.map_cons, List.flatMap_cons, hline, List.append_assoc, List.singleton_append,
      shiftFrom_true h.1, ih h.2]
    simp [line, indent]

/-- A line ends with a line break. -/
theorem endsLines_line (depth : Nat) (text : String) : EndsLines (line depth text) := by
  simp [EndsLines, line]

theorem endsLines_append_line (front : String) (depth : Nat) (text : String) :
    EndsLines (front ++ line depth text) := by
  simp [EndsLines, line]

theorem endsLines_join (lines : List String) (depth : Nat) :
    EndsLines (String.join (lines.map (line depth))) := by
  rcases List.eq_nil_or_concat lines with rfl | ⟨ls, l, rfl⟩
  · simp [EndsLines]
  · simp [EndsLines, line]

/-! ## §2 The lines of a statement -/

/-- Texts for all depths that have the same lines, none of them with a newline in it. -/
def HasLines (text : Nat → String) (lines : List String) : Prop :=
  (∀ l ∈ lines, '\n' ∉ l.toList) ∧ ∀ depth, text depth = String.join (lines.map (line depth))

namespace HasLines

variable {f g : Nat → String} {ls ms : List String} {text header : String}

theorem nil : HasLines (fun _ => "") [] :=
  ⟨by simp, fun _ => rfl⟩

theorem line (h : '\n' ∉ text.toList) :
    HasLines (fun depth => FieldPromotion.line depth text) [text] :=
  ⟨by simpa using h, fun depth => by simp⟩

/-- Texts that have lines at any depth can be put one after the other. -/
theorem append (hf : HasLines f ls) (hg : HasLines g ms) :
    HasLines (fun depth => f depth ++ g depth) (ls ++ ms) := by
  refine ⟨List.forall_mem_append.mpr ⟨hf.1, hg.1⟩, fun depth => ?_⟩
  simp [hf.2 depth, hg.2 depth]

/-- One level deeper, each line starts with four more blanks. -/
theorem deeper (hf : HasLines f ls) :
    HasLines (fun depth => f (depth + 1)) (ls.map ("    " ++ ·)) := by
  have hline : ∀ (depth : Nat) (l : String),
      FieldPromotion.line (depth + 1) l = FieldPromotion.line depth ("    " ++ l) := by
    intro depth l
    simp [FieldPromotion.line, indent_succ, String.append_assoc]
  constructor
  · simpa using hf.1
  · intro depth
    show f (depth + 1) = _
    rw [hf.2, List.map_map]
    exact congrArg String.join (List.map_congr_left fun l _ => hline depth l)

/-- A block has the lines of its content one level further in, and two more around them. -/
theorem braced (hf : HasLines f ls) (hheader : '\n' ∉ header.toList) :
    HasLines (fun depth => FieldPromotion.braced depth header (f (depth + 1)))
      ([header ++ "\x7b"] ++ ls.map ("    " ++ ·) ++ ["\x7d"]) :=
  ((line (by simpa using hheader)).append hf.deeper).append (line (by simp))

/-- What consists of lines ends with a line break. -/
theorem endsLines (hf : HasLines f ls) (depth : Nat) : EndsLines (f depth) := by
  rw [hf.2]
  exact endsLines_join ls depth

/-- The text at some depth is the text at depth zero, shifted. -/
theorem eq_shift (hf : HasLines f ls) (depth : Nat) : f depth = shift depth (f 0) := by
  rw [hf.2, hf.2, shift_join hf.1]

end HasLines

open Visit (OneLine everywhere)

/-- The text of a statement has the same lines at all depths, alone and under a header. -/
structure Stmt.IsLaidOut (s : Stmt) : Prop where
  alone : ∃ lines, HasLines (fun depth => s.printAt depth) lines
  under : ∀ header : String, '\n' ∉ header.toList →
    ∃ lines, HasLines (fun depth => printUnder depth header s) lines

/-- For anything but a block, standing under a header is standing alone one level further in. -/
theorem Stmt.IsLaidOut.of_alone {s : Stmt} (hs : ∀ b, s ≠ .block b)
    (h : ∃ lines, HasLines (fun depth => s.printAt depth) lines) : s.IsLaidOut where
  alone := h
  under header hheader := by
    -- the header is one more line, and the lines of the statement stand one level deeper
    obtain ⟨ls, hls⟩ := h
    simp only [printUnder_of_ne hs]
    exact ⟨_, (HasLines.line hheader).append hls.deeper⟩

mutual

/-- If no part of a statement has a line break in its text, the statement consists of lines. -/
theorem Stmt.isLaidOut : (s : Stmt) → OneLine (s.visits everywhere) → s.IsLaidOut
  | .varDecl d, h => .of_alone (by simp) <| by
    have hd : OneLine (d.visits everywhere) := by simpa [Stmt.visits, Visit.word?] using h
    simp only [Stmt.printAt]
    exact ⟨_, HasLines.line (VarDecl.newline_not_mem_print hd)⟩
  | .funDecl ⟨name, params, returns, ⟨statements, _⟩, _⟩, h => .of_alone (by simp) <| by
    obtain ⟨hname, hparams, hreturns, hbody⟩ : '\n' ∉ name.name.toList ∧
        (∀ p ∈ params, OneLine (p.visits everywhere)) ∧
        (∀ t ∈ returns, OneLine (t.visits everywhere)) ∧
        OneLine (Stmt.visitsAll everywhere statements) := by
      simpa [Stmt.visits, FunDecl.visits, Block.visits, Visit.word?] using h
    obtain ⟨ls, hls⟩ := Stmt.exists_hasLines_all statements hbody
    have hheader : '\n' ∉ (printSignature name params returns ++ " ").toList := by
      simpa using newline_not_mem_printSignature hname hparams hreturns
    have hbraced := hls.braced hheader
    simp only [Stmt.printAt]
    exact ⟨_, hbraced⟩
  | .classDecl ⟨metadata, isAbstract, name, superclass, members, _⟩, h => .of_alone (by simp) <| by
    obtain ⟨hmetadata, hname, hsuper, hmembers⟩ :
        (∀ m ∈ metadata, OneLine (m.visits everywhere)) ∧ '\n' ∉ name.name.toList ∧
        (∀ s ∈ superclass, '\n' ∉ s.name.toList) ∧
        OneLine (Member.visitsAll everywhere members) := by
      simpa [Stmt.visits, ClassDecl.visits, Visit.word?] using h
    obtain ⟨ls, hls⟩ := Member.exists_hasLines_all members hmembers
    have hheader :
        '\n' ∉ (printClassHeader metadata isAbstract name superclass ++ " ").toList := by
      simpa using newline_not_mem_printClassHeader hmetadata hname hsuper isAbstract
    have hbraced := hls.braced hheader
    simp only [Stmt.printAt]
    exact ⟨_, hbraced⟩
  | .expr e _, h => .of_alone (by simp) <| by
    have he : OneLine (e.visits everywhere) := by simpa [Stmt.visits, Visit.word?] using h
    simp only [Stmt.printAt]
    exact ⟨_, HasLines.line (by simpa using Expr.newline_not_mem_print e he)⟩
  | .cond c t none _, h => .of_alone (by simp) <| by
    obtain ⟨hc, ht⟩ : OneLine (c.visits everywhere) ∧ OneLine (t.visits everywhere) := by
      simpa [Stmt.visits, Visit.word?] using h
    simp only [Stmt.printAt_cond_none]
    exact (Stmt.isLaidOut t ht).under _ (by simpa using Expr.newline_not_mem_print c hc)
  | .cond c t (some e) _, h => .of_alone (by simp) <| by
    obtain ⟨hc, ht, he⟩ : OneLine (c.visits everywhere) ∧ OneLine (t.visits everywhere) ∧
        OneLine (e.visits everywhere) := by
      simpa [Stmt.visits, Visit.word?] using h
    obtain ⟨ls, hls⟩ := (Stmt.isLaidOut t ht).under ("if (" ++ c.print ++ ")")
      (by simpa using Expr.newline_not_mem_print c hc)
    obtain ⟨ms, hms⟩ := (Stmt.isLaidOut e he).under "else" (by simp)
    simp only [Stmt.printAt_cond_some]
    exact ⟨_, hls.append hms⟩
  | .loop c body _, h => .of_alone (by simp) <| by
    obtain ⟨hc, hbody⟩ : OneLine (c.visits everywhere) ∧ OneLine (body.visits everywhere) := by
      simpa [Stmt.visits, Visit.word?] using h
    simp only [Stmt.printAt_loop]
    exact (Stmt.isLaidOut body hbody).under _ (by simpa using Expr.newline_not_mem_print c hc)
  | .ret none _, _ => .of_alone (by simp) <| by
    simp only [Stmt.printAt]
    exact ⟨_, HasLines.line (by simp)⟩
  | .ret (some e) _, h => .of_alone (by simp) <| by
    have he : OneLine (e.visits everywhere) := by simpa [Stmt.visits, Visit.word?] using h
    simp only [Stmt.printAt]
    exact ⟨_, HasLines.line (by simpa using Expr.newline_not_mem_print e he)⟩
  | .block ⟨statements, _⟩, h => by
    have hbody : OneLine (Stmt.visitsAll everywhere statements) := by
      simpa [Stmt.visits, Block.visits, Visit.word?] using h
    obtain ⟨ls, hls⟩ := Stmt.exists_hasLines_all statements hbody
    -- the lines inside are the same under every header, only the opening line has it in front
    constructor
    · have hbraced := hls.braced (by simp : '\n' ∉ "".toList)
      simp only [Stmt.printAt]
      exact ⟨_, hbraced⟩
    · intro header hheader
      have hbraced := hls.braced (by simpa using hheader : '\n' ∉ (header ++ " ").toList)
      simp only [printUnder]
      exact ⟨_, hbraced⟩
  | .empty _, _ => .of_alone (by simp) <| by
    simp only [Stmt.printAt]
    exact ⟨_, HasLines.line (by simp)⟩

theorem Stmt.exists_hasLines_all : (ss : List Stmt) → OneLine (Stmt.visitsAll everywhere ss) →
    ∃ lines, HasLines (fun depth => Stmt.printAllAt depth ss) lines
  | [], _ => ⟨_, HasLines.nil⟩
  | s :: ss, h => by
    rw [Stmt.visitsAll, Visit.oneLine_append] at h
    obtain ⟨ls, hls⟩ := (Stmt.isLaidOut s h.1).alone
    obtain ⟨ms, hms⟩ := Stmt.exists_hasLines_all ss h.2
    exact ⟨_, hls.append hms⟩

/-- The same is true of members. -/
theorem Member.exists_hasLines : (m : Member) → OneLine (m.visits everywhere) →
    ∃ lines, HasLines (fun depth => m.printAt depth) lines
  | .field d, h => by
    have hd : OneLine (d.visits everywhere) := by simpa [Member.visits] using h
    simp only [Member.printAt]
    exact ⟨_, HasLines.line (FieldDecl.newline_not_mem_print hd)⟩
  | .method ⟨metadata, visibility, isAbstract, isStatic, name, params, returns, none, _⟩, h => by
    obtain ⟨hmetadata, hname, hparams, hreturns⟩ :
        (∀ m ∈ metadata, OneLine (m.visits everywhere)) ∧ '\n' ∉ name.name.toList ∧
        (∀ p ∈ params, OneLine (p.visits everywhere)) ∧
        (∀ t ∈ returns, OneLine (t.visits everywhere)) := by
      simpa [Member.visits, MethodDecl.visits, Visit.word?] using h
    simp only [Member.printAt]
    refine ⟨_, HasLines.line ?_⟩
    simpa using newline_not_mem_printMethodHeader hmetadata hname hparams hreturns visibility
      isAbstract isStatic
  -- with a body, the header is the line of the opening brace
  | .method ⟨metadata, visibility, isAbstract, isStatic, name, params, returns,
      some ⟨statements, _⟩, _⟩, h => by
    obtain ⟨hmetadata, hname, hparams, hreturns, hbody⟩ :
        (∀ m ∈ metadata, OneLine (m.visits everywhere)) ∧ '\n' ∉ name.name.toList ∧
        (∀ p ∈ params, OneLine (p.visits everywhere)) ∧
        (∀ t ∈ returns, OneLine (t.visits everywhere)) ∧
        OneLine (Stmt.visitsAll everywhere statements) := by
      simpa [Member.visits, MethodDecl.visits, Block.visits, Visit.word?] using h
    obtain ⟨ls, hls⟩ := Stmt.exists_hasLines_all statements hbody
    have hheader : '\n' ∉ (printMethodHeader metadata visibility isAbstract isStatic name params
        returns ++ " ").toList := by
      simpa using newline_not_mem_printMethodHeader hmetadata hname hparams hreturns visibility
        isAbstract isStatic
    have hbraced := hls.braced hheader
    simp only [Member.printAt]
    exact ⟨_, hbraced⟩
  | .ctor ⟨params, ⟨statements, _⟩, _⟩, h => by
    obtain ⟨hparams, hbody⟩ : (∀ p ∈ params, OneLine (p.visits everywhere)) ∧
        OneLine (Stmt.visitsAll everywhere statements) := by
      simpa [Member.visits, CtorDecl.visits, Block.visits, Visit.word?] using h
    obtain ⟨ls, hls⟩ := Stmt.exists_hasLines_all statements hbody
    have hheader : '\n' ∉ ("new(" ++ Param.printAll params ++ ") ").toList := by
      simpa using Param.newline_not_mem_printAll hparams
    have hbraced := hls.braced hheader
    simp only [Member.printAt]
    exact ⟨_, hbraced⟩

theorem Member.exists_hasLines_all : (ms : List Member) → OneLine (Member.visitsAll everywhere ms) →
    ∃ lines, HasLines (fun depth => Member.printAllAt depth ms) lines
  | [], _ => ⟨_, HasLines.nil⟩
  | m :: ms, h => by
    rw [Member.visitsAll, Visit.oneLine_append] at h
    obtain ⟨ls, hls⟩ := Member.exists_hasLines m h.1
    obtain ⟨ks, hks⟩ := Member.exists_hasLines_all ms h.2
    exact ⟨_, hls.append hks⟩

end

/-! ## §3 Statements inside a statement -/

/-- The statements in the body of a member. -/
def Member.bodyStatements : Member → List Stmt
  | .field _ => []
  | .method ⟨_, _, _, _, _, _, _, none, _⟩ => []
  | .method ⟨_, _, _, _, _, _, _, some ⟨statements, _⟩, _⟩ => statements
  | .ctor ⟨_, ⟨statements, _⟩, _⟩ => statements

/-- The statements of a branch that stand on lines of their own, which the braces of a block do not. -/
def Stmt.branchStatements : Stmt → List Stmt
  | .block ⟨statements, _⟩ => statements
  | s => [s]

/-- The statements directly inside a statement, each with the number of levels it is deeper. -/
def Stmt.inner : Stmt → List (Nat × Stmt)
  | .funDecl ⟨_, _, _, ⟨statements, _⟩, _⟩ => statements.map fun s => (1, s)
  | .classDecl ⟨_, _, _, _, members, _⟩ =>
    (members.flatMap Member.bodyStatements).map fun s => (2, s)
  | .cond _ t none _ => t.branchStatements.map fun s => (1, s)
  | .cond _ t (some e) _ => (t.branchStatements ++ e.branchStatements).map fun s => (1, s)
  | .loop _ body _ => body.branchStatements.map fun s => (1, s)
  | .block ⟨statements, _⟩ => statements.map fun s => (1, s)
  | _ => []

/-- A statement stands somewhere inside another one, some levels deeper. -/
inductive Stmt.Within (s : Stmt) : Nat → Stmt → Prop where
  | self : Within s 0 s
  | step {k j : Nat} {t u : Stmt} : Within s k t → (j, u) ∈ t.inner → Within s (k + j) u

/-- The part stands in the text, from the start of a line on. -/
def StandsIn (part text : String) : Prop :=
  ∃ before after, text = before ++ part ++ after ∧ EndsLines before

theorem EndsLines.append {a b : String} (ha : EndsLines a) (hb : EndsLines b) :
    EndsLines (a ++ b) := by
  intro c hc
  -- the last character is that of the second text, or of the first one where the second is empty
  rw [String.toList_append, List.getLast?_append, Option.mem_def, Option.or_eq_some_iff] at hc
  rcases hc with hc | ⟨-, hc⟩
  · exact hb c hc
  · exact ha c hc

namespace StandsIn

variable {a b c : String}

theorem refl (a : String) : StandsIn a a :=
  ⟨"", "", by simp, by simp [EndsLines]⟩

/-- A text that stands in another one stands in whatever that one stands in. -/
theorem trans (hab : StandsIn a b) (hbc : StandsIn b c) : StandsIn a c := by
  obtain ⟨before, after, rfl, hbefore⟩ := hab
  obtain ⟨before', after', rfl, hbefore'⟩ := hbc
  exact ⟨before' ++ before, after ++ after', by simp [String.append_assoc],
    hbefore'.append hbefore⟩

/-- Whatever follows makes no difference. -/
theorem append_right (h : StandsIn a b) (c : String) : StandsIn a (b ++ c) := by
  obtain ⟨before, after, rfl, hbefore⟩ := h
  exact ⟨before, after ++ c, by simp [String.append_assoc], hbefore⟩

/-- Whole lines in front make no difference. -/
theorem append_left (h : StandsIn a c) (hb : EndsLines b) : StandsIn a (b ++ c) := by
  obtain ⟨before, after, rfl, hbefore⟩ := h
  exact ⟨b ++ before, after, by simp [String.append_assoc], hb.append hbefore⟩

end StandsIn

/-- A statement stands on lines of its own in texts for all depths, some levels deeper than these. -/
structure Stmt.Nests (t : Stmt) (levels : Nat) (text : Nat → String) : Prop where
  oneLine : OneLine (t.visits everywhere)
  stands : ∀ depth, StandsIn (t.printAt (depth + levels)) (text depth)

namespace Stmt.Nests

variable {t : Stmt} {k : Nat} {f g : Nat → String}

theorem self (h : OneLine (t.visits everywhere)) : t.Nests 0 fun depth => t.printAt depth :=
  ⟨h, fun _ => StandsIn.refl _⟩

theorem append_right (h : t.Nests k f) (g : Nat → String) :
    t.Nests k fun depth => f depth ++ g depth :=
  ⟨h.oneLine, fun depth => (h.stands depth).append_right _⟩

theorem append_left (h : t.Nests k g) (hf : ∀ depth, EndsLines (f depth)) :
    t.Nests k fun depth => f depth ++ g depth :=
  ⟨h.oneLine, fun depth => (h.stands depth).append_left (hf depth)⟩

/-- Deeper down the text is the same, only shifted. -/
theorem deeper (h : t.Nests k f) : t.Nests (k + 1) fun depth => f (depth + 1) := by
  refine ⟨h.oneLine, fun depth => ?_⟩
  have hstands := h.stands (depth + 1)
  rwa [Nat.add_assoc, Nat.add_comm 1 k] at hstands

theorem braced (h : t.Nests k f) (header : String) :
    t.Nests (k + 1) fun depth => FieldPromotion.braced depth header (f (depth + 1)) :=
  (h.deeper.append_left fun depth => endsLines_line depth (header ++ "\x7b")).append_right _

end Stmt.Nests

section Inside

variable {s t : Stmt} {ss : List Stmt} {m : Member} {ms : List Member}

/-- The text of a statement consists of whole lines. -/
theorem Stmt.endsLines_printAt (h : OneLine (s.visits everywhere)) (depth : Nat) :
    EndsLines (s.printAt depth) := by
  obtain ⟨lines, hlines⟩ := (s.isLaidOut h).alone
  exact hlines.endsLines depth

theorem Member.endsLines_printAt (h : OneLine (m.visits everywhere)) (depth : Nat) :
    EndsLines (m.printAt depth) := by
  obtain ⟨lines, hlines⟩ := m.exists_hasLines h
  exact hlines.endsLines depth

/-- Each of several statements stands in their common text. -/
theorem Stmt.nests_of_mem (h : OneLine (Stmt.visitsAll everywhere ss)) (ht : t ∈ ss) :
    t.Nests 0 fun depth => Stmt.printAllAt depth ss := by
  induction ss with
  | nil => cases ht
  | cons s ss ih =>
    rw [Stmt.visitsAll, Visit.oneLine_append] at h
    simp only [Stmt.printAllAt]
    rcases List.mem_cons.mp ht with rfl | ht
    · exact (Stmt.Nests.self h.1).append_right _
    · exact (ih h.2 ht).append_left (Stmt.endsLines_printAt h.1)

/-- The statements in the body of a member stand one level further in. -/
theorem Member.nests_of_mem_bodyStatements (h : OneLine (m.visits everywhere))
    (ht : t ∈ m.bodyStatements) : t.Nests 1 fun depth => m.printAt depth := by
  match m with
  | .field _ => cases ht
  | .method ⟨_, _, _, _, _, _, _, none, _⟩ => cases ht
  | .method ⟨_, _, _, _, _, _, _, some ⟨statements, _⟩, _⟩ =>
    simp only [Member.visits, MethodDecl.visits, Block.visits, Visit.oneLine_andBelow,
      Visit.oneLine_append] at h
    simp only [Member.printAt]
    exact (Stmt.nests_of_mem h.2.2.2 ht).braced _
  | .ctor ⟨_, ⟨statements, _⟩, _⟩ =>
    simp only [Member.visits, CtorDecl.visits, Block.visits, Visit.oneLine_andBelow,
      Visit.oneLine_append] at h
    simp only [Member.printAt]
    exact (Stmt.nests_of_mem h.2.2.2 ht).braced _

theorem Member.nests_of_mem (h : OneLine (Member.visitsAll everywhere ms))
    (ht : t ∈ ms.flatMap Member.bodyStatements) :
    t.Nests 1 fun depth => Member.printAllAt depth ms := by
  induction ms with
  | nil => cases ht
  | cons m ms ih =>
    rw [Member.visitsAll, Visit.oneLine_append] at h
    simp only [Member.printAllAt]
    rcases List.mem_append.mp ht with ht | ht
    · exact (Member.nests_of_mem_bodyStatements h.1 ht).append_right _
    · exact (ih h.2 ht).append_left (Member.endsLines_printAt h.1)

/-- So do those of a branch, with and without braces. -/
theorem Stmt.nests_of_mem_branchStatements (h : OneLine (s.visits everywhere))
    (ht : t ∈ s.branchStatements) (header : String) :
    t.Nests 1 fun depth => printUnder depth header s := by
  -- a block has its braces on the line of the header, and anything else stands below it
  by_cases hs : ∃ b, s = .block b
  · obtain ⟨⟨statements, span⟩, rfl⟩ := hs
    simp only [Stmt.visits, Block.visits, Visit.oneLine_andBelow] at h
    simp only [printUnder]
    exact (Stmt.nests_of_mem h.2.2 ht).braced _
  · have hne : ∀ b, s ≠ .block b := fun b hb => hs ⟨b, hb⟩
    have hbranch : s.branchStatements = [s] := by
      cases s with
      | block b => exact absurd rfl (hne b)
      | _ => rfl
    obtain rfl := List.mem_singleton.mp (hbranch ▸ ht)
    simp only [printUnder_of_ne hne]
    exact (Stmt.Nests.self h).deeper.append_left fun depth => endsLines_line depth header

theorem Stmt.endsLines_printUnder (h : OneLine (s.visits everywhere)) (depth : Nat)
    (header : String) : EndsLines (printUnder depth header s) := by
  by_cases hs : ∃ b, s = .block b
  · obtain ⟨⟨statements, span⟩, rfl⟩ := hs
    exact endsLines_append_line _ depth _
  · have hne : ∀ b, s ≠ .block b := fun b hb => hs ⟨b, hb⟩
    rw [printUnder_of_ne hne]
    exact (endsLines_line depth header).append (Stmt.endsLines_printAt h (depth + 1))

theorem mem_map_levels {j k : Nat} :
    (k, t) ∈ ss.map (fun u => (j, u)) ↔ k = j ∧ t ∈ ss := by
  rw [List.mem_map]
  constructor
  · rintro ⟨u, hu, heq⟩
    cases heq
    exact ⟨rfl, hu⟩
  · rintro ⟨rfl, ht⟩
    exact ⟨t, ht, rfl⟩

/-- What stands directly inside a statement stands on lines of its own. -/
theorem Stmt.nests_of_mem_inner {k : Nat} (h : OneLine (s.visits everywhere))
    (ht : (k, t) ∈ s.inner) : t.Nests k fun depth => s.printAt depth := by
  match s with
  | .funDecl ⟨_, _, _, ⟨statements, _⟩, _⟩ =>
    obtain ⟨rfl, hu⟩ := mem_map_levels.mp ht
    simp only [Stmt.visits, FunDecl.visits, Block.visits, Visit.oneLine_andBelow,
      Visit.oneLine_append] at h
    simp only [Stmt.printAt]
    exact (Stmt.nests_of_mem h.2.2.2.2 hu).braced _
  | .classDecl ⟨_, _, _, _, members, _⟩ =>
    obtain ⟨rfl, hu⟩ := mem_map_levels.mp ht
    simp only [Stmt.visits, ClassDecl.visits, Visit.oneLine_andBelow, Visit.oneLine_append] at h
    simp only [Stmt.printAt]
    exact (Member.nests_of_mem h.2.2.2 hu).braced _
  | .cond c b none _ =>
    obtain ⟨rfl, hu⟩ := mem_map_levels.mp ht
    simp only [Stmt.visits, Visit.oneLine_andBelow, Visit.oneLine_append] at h
    simp only [Stmt.printAt_cond_none]
    exact Stmt.nests_of_mem_branchStatements h.2.2 hu _
  -- the branches follow each other, and the first one consists of whole lines
  | .cond c b (some e) _ =>
    obtain ⟨rfl, hu⟩ := mem_map_levels.mp ht
    simp only [Stmt.visits, Visit.oneLine_andBelow, Visit.oneLine_append] at h
    simp only [Stmt.printAt_cond_some]
    rcases List.mem_append.mp hu with hu | hu
    · exact (Stmt.nests_of_mem_branchStatements h.2.1.2 hu _).append_right _
    · exact (Stmt.nests_of_mem_branchStatements h.2.2 hu _).append_left fun depth =>
        Stmt.endsLines_printUnder h.2.1.2 depth _
  | .loop c body _ =>
    obtain ⟨rfl, hu⟩ := mem_map_levels.mp ht
    simp only [Stmt.visits, Visit.oneLine_andBelow, Visit.oneLine_append] at h
    simp only [Stmt.printAt_loop]
    exact Stmt.nests_of_mem_branchStatements h.2.2 hu _
  | .block ⟨statements, _⟩ =>
    obtain ⟨rfl, hu⟩ := mem_map_levels.mp ht
    simp only [Stmt.visits, Block.visits, Visit.oneLine_andBelow] at h
    simp only [Stmt.printAt]
    exact (Stmt.nests_of_mem h.2.2 hu).braced _
  | .varDecl _ | .expr _ _ | .ret _ _ | .empty _ => cases ht

/-- What stands inside a statement, at any depth, stands on lines of its own. -/
theorem Stmt.Within.nests {k : Nat} (h : OneLine (s.visits everywhere)) (ht : s.Within k t) :
    t.Nests k fun depth => s.printAt depth := by
  induction ht with
  | self => exact Stmt.Nests.self h
  | step _ hinner ih =>
    -- the levels add up along the way down
    have hstep := Stmt.nests_of_mem_inner ih.oneLine hinner
    refine ⟨hstep.oneLine, fun depth => ?_⟩
    rw [← Nat.add_assoc]
    exact (hstep.stands _).trans (ih.stands depth)

end Inside

/-- The text of a statement at some depth is its text at the left margin, shifted. -/
theorem Stmt.printAt_eq_shift {s : Stmt} (h : OneLine (s.visits everywhere)) (depth : Nat) :
    s.printAt depth = shift depth s.print := by
  obtain ⟨lines, hlines⟩ := (s.isLaidOut h).alone
  exact hlines.eq_shift depth

/-- A printer writes the text of a statement alone, shifted by its depth and line by line, and keeps its
depth. A statement inside is written as it is alone, shifted by some more levels. -/
theorem Printer.statement_eq_shift {s : Stmt} (h : OneLine (s.visits everywhere)) (p : Printer) :
    (({} : Printer).statement s).out = s.print ∧
    p.statement s = { out := p.out ++ shift p.depth s.print, depth := p.depth } ∧
    EndsLines (shift p.depth s.print) ∧
    ∀ k t, s.Within k t → StandsIn (shift (p.depth + k) t.print) (shift p.depth s.print) := by
  -- what the printer writes is the text at its depth
  have hshift := Stmt.printAt_eq_shift h p.depth
  refine ⟨?_, ?_, ?_, ?_⟩
  · rw [s.isWritten.alone]
    exact String.empty_append
  · rw [s.isWritten.alone, hshift]
    rfl
  · rw [← hshift]
    exact Stmt.endsLines_printAt h p.depth
  · intro k t ht
    have hnests := ht.nests h
    rw [← hshift, ← Stmt.printAt_eq_shift hnests.oneLine]
    exact hnests.stands p.depth

/-- A conditional with a loop in its other branch. -/
def limitCheck : Stmt :=
  .cond (.name "limit") (.ret (some (.string "it's" {})) {})
    (some (.block ⟨[.loop (.thisDot "open") (.call "close" []) {}], {}⟩)) {}

/-- A class with the conditional in one of its methods. -/
def gaugeClass : Stmt :=
  .classDecl ((ClassDecl.named "Gauge").withMember
    (.method (.make "read" [.named "limit"] [limitCheck])))

/-- The conditional stands two levels below the class. -/
theorem Printer.statement_gaugeClass :
    OneLine (gaugeClass.visits everywhere) ∧ gaugeClass.Within 2 limitCheck ∧
    ({ out := "x;\n", depth := 1 } : Printer).statement gaugeClass =
      { out := "x;\n" ++ shift 1 gaugeClass.print, depth := 1 } ∧
    StandsIn (shift 3 limitCheck.print) (shift 1 gaugeClass.print) := by
  have hline : OneLine (gaugeClass.visits everywhere) := by decide +kernel
  have hinner : (2, limitCheck) ∈ gaugeClass.inner := List.mem_cons_self
  have hwithin : gaugeClass.Within 2 limitCheck := Stmt.Within.step Stmt.Within.self hinner
  obtain ⟨-, hwritten, -, hstands⟩ :=
    Printer.statement_eq_shift hline { out := "x;\n", depth := 1 }
  exact ⟨hline, hwithin, hwritten, hstands 2 limitCheck hwithin⟩

end FieldPromotion
