import FieldPromotion.Proofs.ControlLines
import FieldPromotion.Tree.Build

/-!
# Control flow that is read back

An `else` belongs to the nearest conditional before it that has none. A statement of control flow that
follows this rule is determined by its lines, and any other has the lines of one that follows it. So the
text of a statement, without its indentation, tells the statement up to where an `else` belongs.
-/

namespace FieldPromotion

/-! ## §1 Where an `else` belongs -/

namespace Stmt

/-- A statement that ends in a conditional without an `else`, outside of all braces. An `else` after
it would belong to it. -/
def isOpen : Stmt → Bool
  | .cond _ _ none _ => true
  | .cond _ _ (some e) _ => e.isOpen
  | .loop _ body _ => body.isOpen
  | _ => false

mutual

/-- Each `else` in the statement belongs to the nearest conditional before it that has none. -/
def isWellNested : Stmt → Bool
  | .cond _ t none _ => t.isWellNested
  | .cond _ t (some e) _ => !t.isOpen && t.isWellNested && e.isWellNested
  | .loop _ body _ => body.isWellNested
  | .block ⟨statements, _⟩ => isWellNestedAll statements
  | _ => true

def isWellNestedAll : List Stmt → Bool
  | [] => true
  | s :: ss => s.isWellNested && isWellNestedAll ss

end

/-- The branch becomes the `else` of the last conditional that an open statement ends in. -/
def attach : Stmt → Stmt → Stmt
  | .cond c t none span, branch =>
    if t.isOpen then .cond c (t.attach branch) none span else .cond c t (some branch) span
  | .cond c t (some e) span, branch => .cond c t (some (e.attach branch)) span
  | .loop c body span, branch => .loop c (body.attach branch) span
  | s, _ => s

mutual

/-- Each `else` is moved to the nearest conditional before it that has none. -/
def regroup : Stmt → Stmt
  | .cond c t none span => .cond c t.regroup none span
  | .cond c t (some e) span =>
    if t.regroup.isOpen then .cond c (t.regroup.attach e.regroup) none span
    else .cond c t.regroup (some e.regroup) span
  | .loop c body span => .loop c body.regroup span
  | .block ⟨statements, span⟩ => .block ⟨regroupAll statements, span⟩
  | s => s

def regroupAll : List Stmt → List Stmt
  | [] => []
  | s :: ss => s.regroup :: regroupAll ss

end

end Stmt

/-! ## §2 The rule keeps the lines -/

/-- Lines that follow do not change how a header goes with its first lines. -/
theorem Header.above_append {ls : List Line} (hls : ls ≠ []) (head : Header) (r : List Line) :
    head.above (ls ++ r) = head.above ls ++ r := by
  cases ls with
  | nil => exact absurd rfl hls
  | cons l ls => cases l <;> rfl

namespace Stmt

theorem lines_ne_nil_of_isOpen {s : Stmt} (h : s.isOpen = true) : s.lines ≠ [] := by
  cases s with
  | cond c t e span =>
    obtain ⟨opens, rest, habove⟩ := Header.exists_above (.cond c.print) t.lines
    cases e <;> simp [lines, habove]
  | loop c body span =>
    obtain ⟨opens, rest, habove⟩ := Header.exists_above (.loop c.print) body.lines
    simp [lines, habove]
  | _ => simp [isOpen] at h

section Attach

variable (branch : Stmt)

/-- An `else` that is attached to an open statement stands after it. -/
theorem lines_attach : (s : Stmt) → s.isOpen = true →
    (s.attach branch).lines = s.lines ++ Header.otherwise.above branch.lines
  | .cond c t none _, _ => by
    rw [attach]
    split
    · rename_i ht
      rw [lines, lines, lines_attach t ht, Header.above_append (lines_ne_nil_of_isOpen ht)]
    · rw [lines, lines]
  | .cond c t (some e) _, h => by
    rw [isOpen] at h
    rw [attach, lines, lines, lines_attach e h, Header.above_append (lines_ne_nil_of_isOpen h),
      List.append_assoc]
  | .loop c body _, h => by
    rw [isOpen] at h
    rw [attach, lines, lines, lines_attach body h, Header.above_append (lines_ne_nil_of_isOpen h)]

variable {branch}

/-- An `else` that is attached to the last open conditional leaves the others closed. -/
theorem isWellNested_attach (hbranch : branch.isWellNested = true) : (s : Stmt) →
    s.isWellNested = true → (s.attach branch).isWellNested = true
  | .cond c t none _, h => by
    rw [isWellNested] at h
    rw [attach]
    -- the `else` goes further in as long as the branch is open
    split
    · rw [isWellNested]
      exact isWellNested_attach hbranch t h
    · simp_all [isWellNested]
  | .cond c t (some e) _, h => by
    simp only [isWellNested, Bool.and_eq_true] at h
    simp only [attach, isWellNested, Bool.and_eq_true]
    exact ⟨h.1, isWellNested_attach hbranch e h.2⟩
  | .loop c body _, h => by
    rw [isWellNested] at h
    rw [attach, isWellNested]
    exact isWellNested_attach hbranch body h
  | .varDecl _, h | .funDecl _, h | .classDecl _, h | .expr _ _, h | .ret _ _, h | .block _, h
  | .empty _, h => by simpa [attach] using h

theorem isControl_attach (hbranch : branch.isControl = true) : (s : Stmt) →
    s.isControl = true → (s.attach branch).isControl = true
  | .cond c t none _, h => by
    simp only [isControl, Bool.and_eq_true] at h
    rw [attach]
    -- the `else` goes further in as long as there is an open conditional inside
    split
    · simp only [isControl, Bool.and_eq_true]
      exact ⟨h.1, isControl_attach hbranch t h.2⟩
    · simp_all [isControl]
  | .cond c t (some e) _, h => by
    simp only [isControl, Bool.and_eq_true] at h
    simp only [attach, isControl, Bool.and_eq_true]
    exact ⟨h.1, isControl_attach hbranch e h.2⟩
  | .loop c body _, h => by
    simp only [isControl, Bool.and_eq_true] at h
    simp only [attach, isControl, Bool.and_eq_true]
    exact ⟨h.1, isControl_attach hbranch body h.2⟩
  | .varDecl _, h | .funDecl _, h | .classDecl _, h | .expr _ _, h | .ret _ _, h | .block _, h
  | .empty _, h => by simpa [attach] using h

end Attach

mutual

/-- The lines are the same, wherever an `else` belongs. -/
theorem lines_regroup : (s : Stmt) → s.regroup.lines = s.lines
  | .cond c t none _ => by rw [regroup, lines, lines, lines_regroup t]
  | .cond c t (some e) _ => by
    rw [regroup]
    split
    · rename_i ht
      rw [lines, lines, lines_attach _ _ ht, Header.above_append (lines_ne_nil_of_isOpen ht),
        lines_regroup t, lines_regroup e]
    · rw [lines, lines, lines_regroup t, lines_regroup e]
  | .loop c body _ => by rw [regroup, lines, lines, lines_regroup body]
  | .block ⟨statements, _⟩ => by rw [regroup, lines, lines, linesAll_regroupAll statements]
  | .varDecl _ | .funDecl _ | .classDecl _ | .expr _ _ | .ret _ _ | .empty _ => by simp [regroup]

/-- The rule keeps the lines of several statements. -/
theorem linesAll_regroupAll : (ss : List Stmt) → linesAll (regroupAll ss) = linesAll ss
  | [] => rfl
  | s :: ss => by rw [regroupAll, linesAll, linesAll, lines_regroup s, linesAll_regroupAll ss]

end

mutual

/-- It makes control statements of control statements. -/
theorem isControl_regroup : (s : Stmt) → s.isControl = true → s.regroup.isControl = true
  | .cond c t none _, h => by
    simp only [isControl, Bool.and_eq_true] at h
    simp only [regroup, isControl, Bool.and_eq_true]
    exact ⟨h.1, isControl_regroup t h.2⟩
  | .cond c t (some e) _, h => by
    simp only [isControl, Bool.and_eq_true] at h
    -- first the two branches, then the `else` between them
    have ht := isControl_regroup t h.1.2
    have he := isControl_regroup e h.2
    rw [regroup]
    split
    · simp only [isControl, Bool.and_eq_true]
      exact ⟨h.1.1, isControl_attach he _ ht⟩
    · simp only [isControl, Bool.and_eq_true]
      exact ⟨⟨h.1.1, ht⟩, he⟩
  | .loop c body _, h => by
    simp only [isControl, Bool.and_eq_true] at h
    simp only [regroup, isControl, Bool.and_eq_true]
    exact ⟨h.1, isControl_regroup body h.2⟩
  | .block ⟨statements, _⟩, h => by
    rw [isControl] at h
    rw [regroup, isControl]
    exact isControlAll_regroupAll statements h
  | .varDecl _, h | .funDecl _, h | .classDecl _, h | .expr _ _, h | .ret _ _, h | .empty _, h => by
    simpa [regroup] using h

theorem isControlAll_regroupAll : (ss : List Stmt) → isControlAll ss = true →
    isControlAll (regroupAll ss) = true
  | [], _ => rfl
  | s :: ss, h => by
    simp only [isControlAll, Bool.and_eq_true] at h
    simp only [regroupAll, isControlAll, Bool.and_eq_true]
    exact ⟨isControl_regroup s h.1, isControlAll_regroupAll ss h.2⟩

end

mutual

/-- What it makes is well nested. -/
theorem isWellNested_regroup : (s : Stmt) → s.regroup.isWellNested = true
  | .cond c t none _ => by
    rw [regroup, isWellNested]
    exact isWellNested_regroup t
  | .cond c t (some e) _ => by
    have ht := isWellNested_regroup t
    have he := isWellNested_regroup e
    rw [regroup]
    split
    · rw [isWellNested]
      exact isWellNested_attach he _ ht
    · -- a branch that is not open may have an `else` after it
      simp_all [isWellNested]
  | .loop c body _ => by
    rw [regroup, isWellNested]
    exact isWellNested_regroup body
  | .block ⟨statements, _⟩ => by
    rw [regroup, isWellNested]
    exact isWellNestedAll_regroupAll statements
  | .varDecl _ | .funDecl _ | .classDecl _ | .expr _ _ | .ret _ _ | .empty _ => by
    simp [regroup, isWellNested]

theorem isWellNestedAll_regroupAll : (ss : List Stmt) → isWellNestedAll (regroupAll ss) = true
  | [] => rfl
  | s :: ss => by
    simp only [regroupAll, isWellNestedAll, Bool.and_eq_true]
    exact ⟨isWellNested_regroup s, isWellNestedAll_regroupAll ss⟩

end

mutual

/-- A statement that follows the rule is left as it is. -/
theorem regroup_of_isWellNested : (s : Stmt) → s.isWellNested = true → s.regroup = s
  | .cond c t none _, h => by
    rw [isWellNested] at h
    rw [regroup, regroup_of_isWellNested t h]
  | .cond c t (some e) _, h => by
    simp only [isWellNested, Bool.and_eq_true, Bool.not_eq_true'] at h
    -- a conditional with an `else` has nothing open in its first branch, so nothing moves
    rw [regroup, regroup_of_isWellNested t h.1.2, regroup_of_isWellNested e h.2,
      if_neg (by simp [h.1.1])]
  | .loop c body _, h => by
    rw [isWellNested] at h
    rw [regroup, regroup_of_isWellNested body h]
  | .block ⟨statements, _⟩, h => by
    rw [isWellNested] at h
    rw [regroup, regroupAll_of_isWellNestedAll statements h]
  | .varDecl _, _ | .funDecl _, _ | .classDecl _, _ | .expr _ _, _ | .ret _ _, _ | .empty _, _ => by
    simp [regroup]

/-- It leaves alone what is well nested already. -/
theorem regroupAll_of_isWellNestedAll : (ss : List Stmt) → isWellNestedAll ss = true →
    regroupAll ss = ss
  | [], _ => rfl
  | s :: ss, h => by
    simp only [isWellNestedAll, Bool.and_eq_true] at h
    rw [regroupAll, regroup_of_isWellNested s h.1, regroupAll_of_isWellNestedAll ss h.2]

end

end Stmt

/-! ## §3 Statements read off their lines -/

/-- The lines go on with an `else`. -/
def startsElse : List Line → Bool
  | .header .otherwise _ :: _ => true
  | _ => false

theorem startsElse_above (ls r : List Line) :
    startsElse (Header.otherwise.above ls ++ r) = true := by
  obtain ⟨opens, rest, habove⟩ := Header.exists_above .otherwise ls
  rw [habove]
  rfl

/-- A header and the lines below it can be read off, even if more lines follow. -/
theorem Header.above_append_inj {head head' : Header} {ls ls' r r' : List Line} (hls : ls ≠ [])
    (hls' : ls' ≠ []) (h : head.above ls ++ r = head'.above ls' ++ r') :
    head = head' ∧ ls ++ r = ls' ++ r' := by
  -- whether the header opens a block tells if the lines below it start with a brace
  have hcut (hd : Header) {ks : List Line} (hks : ks ≠ []) :
      (∃ rest, ks = .opening :: rest ∧ hd.above ks = .header hd true :: rest) ∨
        hd.above ks = .header hd false :: ks := by
    cases ks with
    | nil => exact absurd rfl hks
    | cons l ks =>
      cases l with
      | opening => exact .inl ⟨ks, rfl, rfl⟩
      | _ => exact .inr rfl
  rcases hcut head hls with ⟨rest, rfl, habove⟩ | habove <;>
    rcases hcut head' hls' with ⟨rest', rfl, habove'⟩ | habove' <;>
    simp_all

/-- Plain expressions with the same text differ in positions only. -/
theorem Expr.bare_eq_of_print {e e' : Expr} (he : e.isPlain = true) (he' : e'.isPlain = true)
    (h : e.print = e'.print) : e.bare = e'.bare := by
  cases e <;> simp only [isPlain, Bool.false_eq_true] at he
  cases e' <;> simp only [isPlain, Bool.false_eq_true] at he'
  simp only [print] at h
  simp [bare, Ident.bare, h]

theorem Expr.map_bare_eq_of_map_print {e e' : Option Expr} (he : e.all isPlain = true)
    (he' : e'.all isPlain = true) (h : e.map print = e'.map print) : e.map bare = e'.map bare := by
  cases e <;> cases e' <;> simp at h ⊢
  exact bare_eq_of_print he he' h

/-- So do variables with the same line. -/
theorem VarDecl.bare_eq_of_line {d d' : VarDecl} (hd : (Stmt.varDecl d).isControl = true)
    (hd' : (Stmt.varDecl d').isControl = true)
    (h : (Stmt.varDecl d).lines = (Stmt.varDecl d').lines) : d.bare = d'.bare := by
  simp only [Stmt.isControl, Bool.and_eq_true, Option.isNone_iff_eq_none] at hd hd'
  simp only [Stmt.lines, List.cons.injEq, Line.varDecl.injEq, and_true] at h
  obtain ⟨hstorage, hname, hinit⟩ := h
  simp [bare, Ident.bare, hstorage, hname, hd.1.2, hd'.1.2,
    Expr.map_bare_eq_of_map_print hd.2 hd'.2 hinit]

namespace Stmt

/-- The form of the first line of a statement. -/
def form : Stmt → Option LineForm
  | .varDecl _ => some .varDecl
  | .funDecl _ | .classDecl _ => none
  | .expr _ _ => some .expr
  | .cond .. => some (.header "if")
  | .loop .. => some (.header "while")
  | .ret _ _ => some .ret
  | .block _ => some .opening
  | .empty _ => some .empty

/-- A control statement has a first line, which tells what form it is of. -/
theorem exists_lines {s : Stmt} (h : s.isControl = true) :
    ∃ l rest, s.lines = l :: rest ∧ s.form = some l.form := by
  cases s with
  | funDecl d => simp [isControl] at h
  | classDecl d => simp [isControl] at h
  | cond c t e span =>
    obtain ⟨opens, rest, habove⟩ := Header.exists_above (.cond c.print) t.lines
    cases e <;> simp [lines, habove, form, Line.form, Header.keyword]
  | loop c body span =>
    obtain ⟨opens, rest, habove⟩ := Header.exists_above (.loop c.print) body.lines
    simp [lines, habove, form, Line.form, Header.keyword]
  | block b =>
    cases b
    simp [lines, form, Line.form]
  | _ => simp [lines, form, Line.form]

variable {s s' : Stmt} {r r' : List Line}

theorem lines_ne_nil (h : s.isControl = true) : s.lines ≠ [] := by
  obtain ⟨l, rest, hlines, -⟩ := exists_lines h
  simp [hlines]

theorem form_eq_of_lines_append {l : Line} (h : s.isControl = true) (hl : s.lines ++ r = l :: r') :
    s.form = some l.form := by
  obtain ⟨l', rest, hlines, hform⟩ := exists_lines h
  rw [hlines, List.cons_append, List.cons.injEq] at hl
  rw [hform, hl.1]

/-- That line is never an `else`. -/
theorem startsElse_lines (h : s.isControl = true) (r : List Line) :
    startsElse (s.lines ++ r) = false := by
  unfold startsElse
  split
  · rename_i heq
    have hform := form_eq_of_lines_append h heq
    cases s <;> simp [form, Line.form, Header.keyword] at hform
  · rfl

/-- Statements in a block are not followed by an `else` that could belong to one of them. -/
theorem startsElse_linesAll {ss : List Stmt} (h : isControlAll ss = true) (r : List Line) :
    startsElse (linesAll ss ++ .closing :: r) = false := by
  cases ss with
  | nil => rfl
  | cons s ss =>
    simp only [isControlAll, Bool.and_eq_true] at h
    rw [linesAll, List.append_assoc]
    exact startsElse_lines h.1 _

/-- That line is never a closing brace. -/
theorem lines_append_ne_closing (h : s.isControl = true) : s.lines ++ r ≠ .closing :: r' := by
  intro heq
  have hform := form_eq_of_lines_append h heq
  cases s <;> simp [form, Line.form] at hform

/-- Statements that start with the same lines are of one form. -/
theorem form_eq_of_lines (hs : s.isControl = true) (hs' : s'.isControl = true)
    (h : s.lines ++ r = s'.lines ++ r') : s.form = s'.form := by
  obtain ⟨l, rest, hlines, hform⟩ := exists_lines hs'
  rw [hlines, List.cons_append] at h
  rw [hform, form_eq_of_lines_append hs h]

/-- A statement of control flow that follows the rule, also with the lines after it. -/
structure Legible (s : Stmt) (r : List Line) : Prop where
  control : s.isControl = true
  wellNested : s.isWellNested = true
  rest : s.isOpen = true → startsElse r = false

namespace Legible

variable {c : Expr} {t e : Stmt} {span : Span}

/-- Headers and what stands below them are compared one after the other. -/
theorem above_inj {head head' : Header} (hs : s.Legible r) (hs' : s'.Legible r')
    (h : head.above s.lines ++ r = head'.above s'.lines ++ r') :
    head = head' ∧ s.lines ++ r = s'.lines ++ r' :=
  Header.above_append_inj (lines_ne_nil hs.control) (lines_ne_nil hs'.control) h

theorem branch (h : (Stmt.cond c t none span).Legible r) : c.isPlain = true ∧ t.Legible r := by
  have hcontrol := h.control
  have hnested := h.wellNested
  simp only [isControl, Bool.and_eq_true] at hcontrol
  rw [isWellNested] at hnested
  exact ⟨hcontrol.1, hcontrol.2, hnested, fun _ => h.rest rfl⟩

/-- What follows the first branch starts with its `else`. -/
theorem branches (h : (Stmt.cond c t (some e) span).Legible r) :
    c.isPlain = true ∧ t.Legible (Header.otherwise.above e.lines ++ r) ∧ e.Legible r := by
  have hcontrol := h.control
  have hnested := h.wellNested
  simp only [isControl, Bool.and_eq_true] at hcontrol
  simp only [isWellNested, Bool.and_eq_true, Bool.not_eq_true'] at hnested
  refine ⟨hcontrol.1.1, ⟨hcontrol.1.2, hnested.1.2, fun hopen => ?_⟩, hcontrol.2, hnested.2, h.rest⟩
  -- the first branch cannot be open, or it would take the `else`
  simp [hnested.1.1] at hopen

theorem body (h : (Stmt.loop c t span).Legible r) : c.isPlain = true ∧ t.Legible r := by
  have hcontrol := h.control
  have hnested := h.wellNested
  simp only [isControl, Bool.and_eq_true] at hcontrol
  rw [isWellNested] at hnested
  exact ⟨hcontrol.1, hcontrol.2, hnested, h.rest⟩

end Legible

mutual

/-- The lines of a statement are told from those that follow, and determine it up to spans. -/
theorem lines_append_inj : (s : Stmt) → {s' : Stmt} → {r r' : List Line} → s.Legible r →
    s'.Legible r' → s.lines ++ r = s'.lines ++ r' → s.bare = s'.bare ∧ r = r'
  | .varDecl d, s', r, r', hs, hs', h => by
    -- the recursion is on the first statement; its first line tells what the second one is
    have hform := form_eq_of_lines hs.control hs'.control h
    cases s' <;> simp only [form, reduceCtorEq, Option.some.injEq] at hform
    case varDecl d' =>
      rw [bare, bare]
      have hlines := List.append_inj h rfl
      exact ⟨congrArg Stmt.varDecl (VarDecl.bare_eq_of_line hs.control hs'.control hlines.1), hlines.2⟩
  | .funDecl _, _, _, _, hs, _, _ => by simpa [isControl] using hs.control
  | .classDecl _, _, _, _, hs, _, _ => by simpa [isControl] using hs.control
  | .expr e _, s', r, r', hs, hs', h => by
    have hform := form_eq_of_lines hs.control hs'.control h
    cases s' <;> simp only [form, reduceCtorEq, Option.some.injEq] at hform
    case expr e' _ =>
      simp only [lines, List.cons_append, List.nil_append, List.cons.injEq, Line.expr.injEq] at h
      rw [bare, bare, Expr.bare_eq_of_print hs.control hs'.control h.1]
      exact ⟨rfl, h.2⟩
  | .cond c t none _, s', r, r', hs, hs', h => by
    have hform := form_eq_of_lines hs.control hs'.control h
    obtain ⟨hc, ht⟩ := hs.branch
    cases s' <;> simp only [form, reduceCtorEq, Option.some.injEq, LineForm.header.injEq,
      String.reduceEq] at hform
    case cond c' t' e' _ =>
      cases e' with
      | none =>
        obtain ⟨hc', ht'⟩ := hs'.branch
        obtain ⟨hhead, hbelow⟩ := ht.above_inj ht' h
        obtain ⟨hbranch, hrest⟩ := lines_append_inj t ht ht' hbelow
        rw [bare, bare, Expr.bare_eq_of_print hc hc' (Header.cond.inj hhead), hbranch]
        exact ⟨rfl, hrest⟩
      | some e' =>
        obtain ⟨-, ht', -⟩ := hs'.branches
        rw [lines, lines, List.append_assoc] at h
        obtain ⟨-, hbelow⟩ := ht.above_inj ht' h
        obtain ⟨-, hrest⟩ := lines_append_inj t ht ht' hbelow
        -- the `else` would stand right after a conditional that has none
        have helse := hs.rest rfl
        rw [hrest, startsElse_above] at helse
        contradiction
  | .cond c t (some e) _, s', r, r', hs, hs', h => by
    have hform := form_eq_of_lines hs.control hs'.control h
    obtain ⟨hc, ht, he⟩ := hs.branches
    rw [lines, List.append_assoc] at h
    cases s' <;> simp only [form, reduceCtorEq, Option.some.injEq, LineForm.header.injEq,
      String.reduceEq] at hform
    case cond c' t' e' _ =>
      cases e' with
      | none =>
        obtain ⟨-, ht'⟩ := hs'.branch
        obtain ⟨-, hbelow⟩ := ht.above_inj ht' h
        obtain ⟨-, hrest⟩ := lines_append_inj t ht ht' hbelow
        have helse := hs'.rest rfl
        rw [← hrest, startsElse_above] at helse
        contradiction
      | some e' =>
        obtain ⟨hc', ht', he'⟩ := hs'.branches
        rw [lines, List.append_assoc] at h
        obtain ⟨hhead, hbelow⟩ := ht.above_inj ht' h
        obtain ⟨hbranch, hother⟩ := lines_append_inj t ht ht' hbelow
        obtain ⟨-, hbelow⟩ := he.above_inj he' hother
        obtain ⟨hbranch', hrest⟩ := lines_append_inj e he he' hbelow
        rw [bare, bare, Expr.bare_eq_of_print hc hc' (Header.cond.inj hhead), hbranch, hbranch']
        exact ⟨rfl, hrest⟩
  | .loop c body _, s', r, r', hs, hs', h => by
    have hform := form_eq_of_lines hs.control hs'.control h
    obtain ⟨hc, hbody⟩ := hs.body
    cases s' <;> simp only [form, reduceCtorEq, Option.some.injEq, LineForm.header.injEq,
      String.reduceEq] at hform
    case loop c' body' _ =>
      obtain ⟨hc', hbody'⟩ := hs'.body
      obtain ⟨hhead, hbelow⟩ := hbody.above_inj hbody' h
      obtain ⟨hbare, hrest⟩ := lines_append_inj body hbody hbody' hbelow
      rw [bare, bare, Expr.bare_eq_of_print hc hc' (Header.loop.inj hhead), hbare]
      exact ⟨rfl, hrest⟩
  | .ret value _, s', r, r', hs, hs', h => by
    have hform := form_eq_of_lines hs.control hs'.control h
    cases s' <;> simp only [form, reduceCtorEq, Option.some.injEq] at hform
    case ret value' _ =>
      simp only [lines, List.cons_append, List.nil_append, List.cons.injEq, Line.ret.injEq] at h
      rw [bare, bare, Expr.map_bare_eq_of_map_print hs.control hs'.control h.1]
      exact ⟨rfl, h.2⟩
  | .block ⟨statements, _⟩, s', r, r', hs, hs', h => by
    have hform := form_eq_of_lines hs.control hs'.control h
    cases s' <;> simp only [form, reduceCtorEq, Option.some.injEq] at hform
    case block b' =>
      obtain ⟨statements', _⟩ := b'
      simp only [lines, List.cons_append, List.append_assoc, List.nil_append, List.cons.injEq,
        true_and] at h
      obtain ⟨hbare, hrest⟩ := linesAll_append_inj statements hs.control hs.wellNested hs'.control
        hs'.wellNested h
      rw [bare, bare, hbare]
      exact ⟨rfl, hrest⟩
  | .empty _, s', r, r', hs, hs', h => by
    have hform := form_eq_of_lines hs.control hs'.control h
    cases s' <;> simp only [form, reduceCtorEq, Option.some.injEq] at hform
    case empty _ => exact ⟨rfl, (List.cons.inj h).2⟩

/-- The statements of a block end where it is closed. -/
theorem linesAll_append_inj : (ss : List Stmt) → {ss' : List Stmt} → {r r' : List Line} →
    isControlAll ss = true → isWellNestedAll ss = true → isControlAll ss' = true →
    isWellNestedAll ss' = true → linesAll ss ++ .closing :: r = linesAll ss' ++ .closing :: r' →
    bareAll ss = bareAll ss' ∧ r = r'
  | [], [], _, _, _, _, _, _, h => ⟨rfl, (List.cons.inj h).2⟩
  | [], s' :: ss', _, _, _, _, hss', _, h => by
    simp only [isControlAll, Bool.and_eq_true] at hss'
    rw [linesAll, linesAll, List.append_assoc] at h
    exact absurd h.symm (lines_append_ne_closing hss'.1)
  | s :: ss, [], _, _, hss, _, _, _, h => by
    simp only [isControlAll, Bool.and_eq_true] at hss
    rw [linesAll, linesAll, List.append_assoc] at h
    exact absurd h (lines_append_ne_closing hss.1)
  | s :: ss, s' :: ss', r, r', hss, hnested, hss', hnested', h => by
    simp only [isControlAll, isWellNestedAll, Bool.and_eq_true] at hss hss' hnested hnested'
    rw [linesAll, linesAll, List.append_assoc, List.append_assoc] at h
    -- a statement or the end of the block follows, and neither starts with an `else`
    obtain ⟨hbare, hmore⟩ := lines_append_inj s
      ⟨hss.1, hnested.1, fun _ => startsElse_linesAll hss.2 r⟩
      ⟨hss'.1, hnested'.1, fun _ => startsElse_linesAll hss'.2 r'⟩ h
    obtain ⟨hbares, hrest⟩ := linesAll_append_inj ss hss.2 hnested.2 hss'.2 hnested'.2 hmore
    rw [bareAll, bareAll, hbare, hbares]
    exact ⟨rfl, hrest⟩

end

/-! ## §4 Statements with one text up to indentation -/

/-- Two texts are the same up to indentation when the lines are. -/
theorem unindent_print_eq_iff (hs : s.isControl = true) (hs' : s'.isControl = true) :
    unindent s.print = unindent s'.print ↔ s.lines = s'.lines :=
  unindent_eq_iff ((isShown s hs).alone 0) ((isShown s' hs').alone 0) (isProper_of_mem_lines s hs)
    (isProper_of_mem_lines s' hs')

/-- Without indentation, two statements of control flow have the same text exactly if they are the
same, spans apart, once each `else` belongs to the nearest conditional that has none. So the text of a
statement that follows this rule determines it up to spans. -/
theorem unindent_print_eq_iff_regroup (hs : s.isControl = true) (hs' : s'.isControl = true) :
    (unindent s.print = unindent s'.print ↔ s.regroup.bare = s'.regroup.bare) ∧
      (s.isWellNested = true → s'.isWellNested = true → unindent s.print = unindent s'.print →
        s.bare = s'.bare) := by
  have hcontrol := isControl_regroup s hs
  have hcontrol' := isControl_regroup s' hs'
  have hiff : unindent s.print = unindent s'.print ↔ s.regroup.bare = s'.regroup.bare := by
    rw [unindent_print_eq_iff hs hs', ← lines_regroup s, ← lines_regroup s']
    constructor
    · intro h
      -- nothing follows the two statements
      have hread : s.regroup.bare = s'.regroup.bare ∧ ([] : List Line) = [] :=
        lines_append_inj s.regroup ⟨hcontrol, isWellNested_regroup s, fun _ => rfl⟩
          ⟨hcontrol', isWellNested_regroup s', fun _ => rfl⟩ (by rw [h])
      exact hread.1
    · intro h
      rw [← unindent_print_eq_iff hcontrol hcontrol', print, print, ← printAt_bare, h, printAt_bare]
  refine ⟨hiff, fun hnested hnested' h => ?_⟩
  rw [← regroup_of_isWellNested s hnested, ← regroup_of_isWellNested s' hnested']
  exact hiff.mp h

/-- A conditional around a loop that ends in a conditional. The `else` belongs to the outer one. -/
def elseAfterLoop : Stmt :=
  .cond (.name "a")
    (.loop (.name "b") (.cond (.name "c") (.block ⟨[.ret (some (.name "x")) {}], {}⟩) none {}) {})
    (some (.empty {})) {}

/-- The same with the `else` inside the loop. -/
def elseInLoop : Stmt :=
  .cond (.name "a")
    (.loop (.name "b")
      (.cond (.name "c") (.block ⟨[.ret (some (.name "x")) {}], {}⟩) (some (.empty {})) {}) {})
    none {}

/-- Once the `else` belongs to the nearest conditional the statements are the same, and so the texts
are but for indentation. -/
theorem unindent_print_elseAfterLoop : elseAfterLoop.isControl = true ∧ elseInLoop.isControl = true ∧
    unindent elseAfterLoop.print = unindent elseInLoop.print := by
  have hs : elseAfterLoop.isControl = true := by decide +kernel
  have hs' : elseInLoop.isControl = true := by decide +kernel
  exact ⟨hs, hs', (unindent_print_eq_iff_regroup hs hs').1.mpr rfl⟩

/-- The statement `if (a) { if (b) x; } else y;`, without the braces. -/
def outerElse : Stmt :=
  .cond (.name "a") (.cond (.name "b") (.expr (.name "x") {}) none {})
    (some (.expr (.name "y") {})) {}

/-- The statement `if (a) { if (b) x; else y; }`, without the braces. -/
def innerElse : Stmt :=
  .cond (.name "a")
    (.cond (.name "b") (.expr (.name "x") {}) (some (.expr (.name "y") {})) {}) none {}

/-- Nothing but indentation tells which conditional an `else` belongs to. -/
theorem unindent_print_outerElse : outerElse.isControl = true ∧ innerElse.isControl = true ∧
    unindent outerElse.print = unindent innerElse.print ∧ outerElse.bare ≠ innerElse.bare := by
  refine ⟨by decide +kernel, by decide +kernel, by decide +kernel, ?_⟩
  intro h
  cases h

end Stmt

end FieldPromotion
