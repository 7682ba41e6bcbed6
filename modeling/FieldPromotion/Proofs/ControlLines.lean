import FieldPromotion.Proofs.Tokens

/-!
# Lines of control flow

Conditionals, loops, blocks and simple statements whose expressions are names are printed as lines of
a few forms. The text of such a statement, without the spaces that its lines start with, tells what
its lines are and nothing more.
-/

namespace FieldPromotion

/-! ## §1 Names and lines -/

/-- A text with the leading spaces of every line removed. -/
def unindent (s : String) : String :=
  String.ofList (['\n'].intercalate ((s.toList.splitOn '\n').map (List.dropWhile (· == ' '))))

/-- The words that start a line of control flow. -/
def reservedWords : List String :=
  ["if", "else", "while", "return", "var", "final"]

/-- A word of small letters that is not reserved. -/
def isPlainName (s : String) : Bool :=
  !s.toList.isEmpty && s.toList.all Char.isLower && !reservedWords.contains s

/-- What a conditional, its other branch or a loop starts with. -/
inductive Header where
  | cond (condition : String)
  | otherwise
  | loop (condition : String)
  deriving DecidableEq

namespace Header

def keyword : Header → String
  | .cond _ => "if"
  | .otherwise => "else"
  | .loop _ => "while"

/-- What follows the keyword of a header. -/
def condition : Header → List Char
  | .cond c | .loop c => ' ' :: '(' :: (c.toList ++ [')'])
  | .otherwise => []

def isProper : Header → Bool
  | .cond c | .loop c => isPlainName c
  | .otherwise => true

/-- The text of a header. -/
def text : Header → String
  | .cond c => "if (" ++ c ++ ")"
  | .otherwise => "else"
  | .loop c => "while (" ++ c ++ ")"

end Header

/-- A line of control flow. A header opens a block or not. -/
inductive Line where
  | varDecl (storage : Storage) (name : String) (init : Option String)
  | expr (name : String)
  | ret (value : Option String)
  | empty
  | header (head : Header) (opens : Bool)
  | opening
  | closing
  deriving DecidableEq

/-- The forms that lines have. -/
inductive LineForm where
  | varDecl | expr | ret | empty | opening | closing
  | header (keyword : String)

namespace Line

def form : Line → LineForm
  | .varDecl .. => .varDecl
  | .expr _ => .expr
  | .ret _ => .ret
  | .empty => .empty
  | .header head _ => .header head.keyword
  | .opening => .opening
  | .closing => .closing

/-- The word that a line starts with. -/
def lead : Line → String
  | .varDecl storage _ _ => storage.keyword
  | .expr name => name
  | .ret _ => "return"
  | .header head _ => head.keyword
  | .empty | .opening | .closing => ""

/-- The end of a line that may hold one more name, after a space and a separator. -/
def ending (sep : List Char) : Option String → List Char
  | none => [';']
  | some name => ' ' :: (sep ++ (name.toList ++ [';']))

/-- The end of a header, which may open a block. -/
def brace (opens : Bool) : List Char :=
  if opens then [' ', '\x7b'] else []

/-- What follows the first word of a line. -/
def tail : Line → List Char
  | .varDecl _ name init => ' ' :: (name.toList ++ ending ['=', ' '] init)
  | .expr _ | .empty => [';']
  | .ret value => ending [] value
  | .header head opens => head.condition ++ brace opens
  | .opening => ['\x7b']
  | .closing => ['\x7d']

/-- The text of a line. -/
def text (l : Line) : List Char :=
  l.lead.toList ++ l.tail

/-- All names in a line are plain names. -/
def isProper : Line → Bool
  | .varDecl _ name init => isPlainName name && init.all isPlainName
  | .expr name => isPlainName name
  | .ret value => value.all isPlainName
  | .header head _ => head.isProper
  | .empty | .opening | .closing => true

end Line

/-! ## §2 The text of a line determines it -/

section Names

variable {s s' : String} {cs ds : List Char}

/-- Plain names are made of lower case letters. -/
theorem isLower_of_isPlainName (h : isPlainName s = true) : ∀ c ∈ s.toList, c.isLower = true := by
  simp only [isPlainName, Bool.and_eq_true, List.all_eq_true] at h
  exact h.1.2

theorem not_mem_reservedWords (h : isPlainName s = true) : s ∉ reservedWords := by
  simp only [isPlainName, Bool.and_eq_true, Bool.not_eq_true', List.contains_eq_mem,
    decide_eq_false_iff_not] at h
  exact h.2

/-- They are not empty. -/
theorem exists_cons_of_isPlainName (h : isPlainName s = true) :
    ∃ c cs, s.toList = c :: cs ∧ c.isLower = true := by
  cases hs : s.toList with
  | nil => simp [isPlainName, hs] at h
  | cons c cs => exact ⟨c, cs, rfl, isLower_of_isPlainName h c (by simp [hs])⟩

theorem newline_not_mem_of_isPlainName (h : isPlainName s = true) : '\n' ∉ s.toList := by
  intro hmem
  have hlower := isLower_of_isPlainName h _ hmem
  contradiction

/-- A name ends where something else than a small letter follows. -/
theorem append_inj_of_isPlainName (hs : isPlainName s = true) (hs' : isPlainName s' = true)
    (hcs : ∀ c ∈ cs.head?, c.isLower = false) (hds : ∀ c ∈ ds.head?, c.isLower = false)
    (h : s.toList ++ cs = s'.toList ++ ds) : s = s' ∧ cs = ds := by
  obtain ⟨hname, hrest⟩ := append_inj_of_forall (isLower_of_isPlainName hs)
    (isLower_of_isPlainName hs') hcs hds h
  exact ⟨String.toList_inj.mp hname, hrest⟩

end Names

namespace Line

variable {l l' : Line}

/-- The end of a line does not continue a name. -/
theorem head_ending (sep : List Char) (name : Option String) :
    ∀ c ∈ (ending sep name).head?, c.isLower = false := by
  cases name <;> simp [ending]

/-- What stands at the end of a line can be read off. -/
theorem ending_inj {sep : List Char} {a b : Option String} (ha : a.all isPlainName = true)
    (hb : b.all isPlainName = true) (h : ending sep a = ending sep b) : a = b := by
  cases a with
  | none =>
    cases b with
    | none => rfl
    | some b => simp [ending] at h
  | some a =>
    cases b with
    | none => simp [ending] at h
    | some b =>
      simp only [ending, List.cons.injEq, true_and, List.append_cancel_left_eq] at h
      rw [(append_inj_of_isPlainName ha hb (by simp) (by simp) h).1]

/-- A brace does not continue a name either. -/
theorem head_brace (opens : Bool) : ∀ c ∈ (brace opens).head?, c.isLower = false := by
  cases opens <;> simp [brace]

/-- The first word of a line is made of lower case letters. -/
theorem isLower_lead (h : l.isProper = true) : ∀ c ∈ l.lead.toList, c.isLower = true := by
  cases l with
  | varDecl storage name init => cases storage <;> simp [lead, Storage.keyword]
  | expr name => exact isLower_of_isPlainName h
  | header head opens => cases head <;> simp [lead, Header.keyword]
  | _ => simp [lead]

/-- It is as long as the letters go. -/
theorem head_tail (l : Line) : ∀ c ∈ l.tail.head?, c.isLower = false := by
  cases l with
  | ret value => exact head_ending [] value
  | header head opens =>
    cases head with
    | otherwise => exact head_brace opens
    | _ => simp [tail, Header.condition]
  | _ => simp [tail]

/-- The form of a line, from its first word and what follows. -/
def formOf (lead : String) (tail : List Char) : LineForm :=
  match lead with
  | "var" | "final" => .varDecl
  | "return" => .ret
  | "if" => .header "if"
  | "else" => .header "else"
  | "while" => .header "while"
  | "" => if tail = [';'] then .empty else if tail = ['\x7b'] then .opening else .closing
  | _ => .expr

/-- The first word and the first character after it tell the form of a line. -/
theorem formOf_text (h : l.isProper = true) : formOf l.lead l.tail = l.form := by
  cases l with
  | varDecl storage name init => cases storage <;> rfl
  | expr name =>
    obtain ⟨c, cs, hname, -⟩ := exists_cons_of_isPlainName h
    have hne : name ≠ "" := by
      rintro rfl
      simp at hname
    have hreserved := not_mem_reservedWords h
    simp only [reservedWords, List.mem_cons, List.not_mem_nil, or_false, not_or] at hreserved
    -- a plain name is none of the words that are matched on
    simp only [lead, form]
    unfold formOf
    split <;> simp_all
  | header head opens => cases head <;> rfl
  | _ => rfl

/-- A header can be read off its text, and so can the brace after it. -/
theorem header_inj {a b : Header} {opens opens' : Bool} (ha : a.isProper = true)
    (hb : b.isProper = true) (hkeyword : a.keyword = b.keyword)
    (htail : a.condition ++ brace opens = b.condition ++ brace opens') :
    a = b ∧ opens = opens' := by
  have hbrace : brace opens = brace opens' → opens = opens' := by
    cases opens <;> cases opens' <;> simp [brace]
  -- up to the parenthesis after its condition, a header is a name
  have hcondition {c d : String} (hc : isPlainName c = true) (hd : isPlainName d = true)
      (h : c.toList ++ ([')'] ++ brace opens) = d.toList ++ ([')'] ++ brace opens')) :
      c = d ∧ opens = opens' := by
    obtain ⟨hname, hrest⟩ := append_inj_of_isPlainName hc hd (by simp) (by simp) h
    exact ⟨hname, hbrace (List.append_cancel_left hrest)⟩
  cases a <;> cases b <;> simp only [Header.keyword, String.reduceEq] at hkeyword
  case cond.cond c d =>
    simp only [Header.condition, List.cons_append, List.append_assoc, List.cons.injEq,
      true_and] at htail
    simpa using hcondition ha hb htail
  case otherwise.otherwise => exact ⟨rfl, hbrace htail⟩
  case loop.loop c d =>
    simp only [Header.condition, List.cons_append, List.append_assoc, List.cons.injEq,
      true_and] at htail
    simpa using hcondition ha hb htail

/-- The text of a line determines it. -/
theorem text_inj (hl : l.isProper = true) (hl' : l'.isProper = true) (h : l.text = l'.text) :
    l = l' := by
  obtain ⟨hlead, htail⟩ := append_inj_of_forall (isLower_lead hl) (isLower_lead hl') l.head_tail
    l'.head_tail h
  rw [String.toList_inj] at hlead
  -- the first word and what follows tell the form, so both lines have the same constructor
  have hform : l.form = l'.form := by rw [← formOf_text hl, ← formOf_text hl', hlead, htail]
  cases l <;> cases l' <;> simp only [form, reduceCtorEq] at hform
  case varDecl.varDecl storage name init storage' name' init' =>
    simp only [isProper, Bool.and_eq_true] at hl hl'
    simp only [tail, List.cons.injEq, true_and] at htail
    obtain ⟨rfl, hending⟩ := append_inj_of_isPlainName hl.1 hl'.1 (head_ending _ _)
      (head_ending _ _) htail
    have hstorage : storage = storage' := by
      cases storage <;> cases storage' <;> simp [lead, Storage.keyword] at hlead ⊢
    rw [hstorage, ending_inj hl.2 hl'.2 hending]
  case expr.expr name name' => rw [show name = name' from hlead]
  case ret.ret value value' => rw [ending_inj hl hl' htail]
  case header.header head opens head' opens' =>
    obtain ⟨rfl, rfl⟩ := header_inj hl hl' hlead htail
    rfl
  all_goals rfl

/-- Lines can be read off their texts one by one. -/
theorem eq_of_map_text {ls ls' : List Line} (hls : ∀ l ∈ ls, l.isProper = true)
    (hls' : ∀ l ∈ ls', l.isProper = true) (h : ls.map text = ls'.map text) : ls = ls' := by
  induction ls generalizing ls' with
  | nil => simpa using h
  | cons l ls ih =>
    cases ls' with
    | nil => simp at h
    | cons l' ls' =>
      simp only [List.mem_cons, forall_eq_or_imp] at hls hls'
      simp only [List.map_cons, List.cons.injEq] at h
      rw [text_inj hls.1 hls'.1 h.1, ih hls.2 hls'.2 h.2]

end Line

/-! ## §3 Texts that show lines -/

namespace Line

theorem newline_not_mem_ending {sep : List Char} {name : Option String} (hsep : '\n' ∉ sep)
    (h : name.all isPlainName = true) : '\n' ∉ ending sep name := by
  cases name with
  | none => simp [ending]
  | some name => simp [ending, hsep, newline_not_mem_of_isPlainName h]

/-- A line is one line. -/
theorem newline_not_mem_text {l : Line} (h : l.isProper = true) : '\n' ∉ l.text := by
  -- the first word is made of letters, and a line break is none
  have hlead : '\n' ∉ l.lead.toList := fun hmem => by
    have hlower := isLower_lead h _ hmem
    contradiction
  have htail : '\n' ∉ l.tail := by
    cases l with
    | varDecl storage name init =>
      simp only [isProper, Bool.and_eq_true] at h
      simp [tail, newline_not_mem_of_isPlainName h.1, newline_not_mem_ending _ h.2]
    | ret value => exact newline_not_mem_ending (by simp) h
    | header head opens =>
      cases head <;> cases opens <;>
        simp_all [tail, Header.condition, brace, isProper, Header.isProper,
          newline_not_mem_of_isPlainName]
    | _ => simp [tail]
  simp [text, hlead, htail]

/-- A line does not start with a space. -/
theorem dropWhile_text {l : Line} (h : l.isProper = true) :
    l.text.dropWhile (· == ' ') = l.text := by
  cases hlead : l.lead.toList with
  | cons c cs =>
    -- a line with a first word starts with a letter
    have hc : c.isLower = true := isLower_lead h c (by simp [hlead])
    have hne : c ≠ ' ' := by
      rintro rfl
      contradiction
    simp [text, hlead, hne]
  -- a line without one starts with a brace or a semicolon
  | nil =>
    cases l with
    | varDecl storage name init => cases storage <;> simp [lead, Storage.keyword] at hlead
    | expr name =>
      obtain ⟨c, cs, hname, -⟩ := exists_cons_of_isPlainName h
      simp [lead, hname] at hlead
    | ret value => simp [lead] at hlead
    | header head opens => cases head <;> simp [lead, Header.keyword] at hlead
    | _ => simp [text, lead, tail]

end Line

/-- A text that is made of some lines, each after some spaces. -/
inductive Shows : List Char → List Line → Prop where
  | nil : Shows [] []
  | cons (n : Nat) (l : Line) {cs : List Char} {ls : List Line} : Shows cs ls →
    Shows (List.replicate n ' ' ++ l.text ++ '\n' :: cs) (l :: ls)

namespace Shows

variable {cs ds : List Char} {ls ms : List Line}

/-- Texts with lines can be put one after the other. -/
theorem append (h : Shows cs ls) (h' : Shows ds ms) : Shows (cs ++ ds) (ls ++ ms) := by
  induction h with
  | nil => exact h'
  | cons n l _ ih => simpa using Shows.cons n l ih

/-- A line of the printer shows a line, however far it is indented. -/
theorem line {depth : Nat} {s : String} {l : Line} (h : s.toList = l.text) :
    Shows (FieldPromotion.line depth s).toList [l] := by
  simpa [FieldPromotion.line, indent, h] using Shows.cons (4 * depth) l Shows.nil

/-- Without the spaces in front of them, the lines of the text are left. -/
theorem map_splitOn (h : Shows cs ls) (hls : ∀ l ∈ ls, l.isProper = true) :
    (cs.splitOn '\n').map (List.dropWhile (· == ' ')) = ls.map Line.text ++ [[]] := by
  induction h with
  | nil => rfl
  | @cons n l cs ls _ ih =>
    have hl : l.isProper = true := hls l (by simp)
    -- the first newline is the one that ends the line
    have hnewline : ∀ c ∈ List.replicate n ' ' ++ l.text, (c == '\n') = false := by
      intro c hc
      rw [beq_eq_false_iff_ne]
      rintro rfl
      rcases List.mem_append.mp hc with hc | hc
      · simp at hc
      · exact Line.newline_not_mem_text hl hc
    have hdrop : (List.replicate n ' ' ++ l.text).dropWhile (· == ' ') = l.text := by
      rw [List.dropWhile_append_of_pos (by simp), Line.dropWhile_text hl]
    rw [List.splitOn, List.splitOnP_append_cons_of_forall_mem hnewline _ (by simp), List.map_cons,
      hdrop, ← List.splitOn, ih fun l hl => hls l (by simp [hl])]
    rfl

end Shows

/-- Two texts that show lines differ in indentation only exactly if the lines are the same. -/
theorem unindent_eq_iff {s s' : String} {ls ls' : List Line} (hs : Shows s.toList ls)
    (hs' : Shows s'.toList ls') (hls : ∀ l ∈ ls, l.isProper = true)
    (hls' : ∀ l ∈ ls', l.isProper = true) : unindent s = unindent s' ↔ ls = ls' := by
  have hnewline {ks : List Line} (hks : ∀ l ∈ ks, l.isProper = true) :
      ∀ cs ∈ ks.map Line.text ++ [[]], '\n' ∉ cs := by
    intro cs hcs
    simp only [List.mem_append, List.mem_map, List.mem_singleton] at hcs
    rcases hcs with ⟨l, hl, rfl⟩ | rfl
    · exact Line.newline_not_mem_text (hks l hl)
    · simp
  rw [unindent, unindent, String.ofList_inj, hs.map_splitOn hls, hs'.map_splitOn hls']
  constructor
  · intro h
    -- joined at the ends of lines, the texts can be taken apart again
    have hsplit := congrArg (List.splitOn '\n') h
    rw [List.splitOn_intercalate '\n' (hnewline hls) (by simp),
      List.splitOn_intercalate '\n' (hnewline hls') (by simp)] at hsplit
    exact Line.eq_of_map_text hls hls' (List.append_cancel_right hsplit)
  · rintro rfl
    rfl

/-! ## §4 Lines of a statement -/

/-- An expression that is a plain name. -/
def Expr.isPlain : Expr → Bool
  | .ident id => isPlainName id.name
  | _ => false

namespace Stmt

mutual

/-- A statement of control flow, in which all expressions are plain names and no type is annotated. -/
def isControl : Stmt → Bool
  | .varDecl d => isPlainName d.name.name && d.type.isNone && d.init.all Expr.isPlain
  | .funDecl _ | .classDecl _ => false
  | .expr e _ => e.isPlain
  | .cond c t none _ => c.isPlain && t.isControl
  | .cond c t (some e) _ => c.isPlain && t.isControl && e.isControl
  | .loop c body _ => c.isPlain && body.isControl
  | .ret value _ => value.all Expr.isPlain
  | .block ⟨statements, _⟩ => isControlAll statements
  | .empty _ => true

def isControlAll : List Stmt → Bool
  | [] => true
  | s :: ss => s.isControl && isControlAll ss

end

end Stmt

/-- Lines under a header, which takes over the brace of a block. -/
def Header.above (head : Header) : List Line → List Line
  | .opening :: ls => .header head true :: ls
  | ls => .header head false :: ls

namespace Stmt

mutual

/-- The lines of a statement of control flow. -/
def lines : Stmt → List Line
  | .varDecl d => [.varDecl d.storage d.name.name (d.init.map Expr.print)]
  | .funDecl _ | .classDecl _ => []
  | .expr e _ => [.expr e.print]
  | .cond c t none _ => (Header.cond c.print).above t.lines
  | .cond c t (some e) _ =>
    (Header.cond c.print).above t.lines ++ Header.otherwise.above e.lines
  | .loop c body _ => (Header.loop c.print).above body.lines
  | .ret value _ => [.ret (value.map Expr.print)]
  | .block ⟨statements, _⟩ => .opening :: (linesAll statements ++ [.closing])
  | .empty _ => [.empty]

def linesAll : List Stmt → List Line
  | [] => []
  | s :: ss => s.lines ++ linesAll ss

end

end Stmt

/-- The text of a plain expression is a plain name. -/
theorem Expr.isPlainName_print {e : Expr} (h : e.isPlain = true) : isPlainName e.print = true := by
  cases e with
  | ident id => simpa [Expr.print, Expr.isPlain] using h
  | _ => simp [Expr.isPlain] at h

theorem Expr.all_isPlainName_print {e : Option Expr} (h : e.all Expr.isPlain = true) :
    (e.map Expr.print).all isPlainName = true := by
  cases e with
  | none => rfl
  | some e => exact Expr.isPlainName_print h

namespace Header

/-- Lines that do not open a block stay as they are. -/
theorem above_of_head_ne {ls : List Line} (h : ls.head? ≠ some .opening) (head : Header) :
    head.above ls = .header head false :: ls := by
  unfold above
  split
  · simp at h
  · rfl

/-- What is under a header starts with the header. -/
theorem exists_above (head : Header) (ls : List Line) :
    ∃ opens rest, head.above ls = .header head opens :: rest := by
  unfold above
  split
  · exact ⟨true, _, rfl⟩
  · exact ⟨false, _, rfl⟩

/-- Lines stay proper under a header. -/
theorem isProper_above {head : Header} {ls : List Line} (hhead : head.isProper = true)
    (hls : ∀ l ∈ ls, l.isProper = true) : ∀ l ∈ head.above ls, l.isProper = true := by
  unfold above
  split
  · rw [List.forall_mem_cons] at hls ⊢
    exact ⟨hhead, hls.2⟩
  · rw [List.forall_mem_cons]
    exact ⟨hhead, hls⟩

end Header

namespace Stmt

mutual

/-- The lines of control flow hold plain names only. -/
theorem isProper_of_mem_lines : (s : Stmt) → s.isControl = true → ∀ l ∈ s.lines, l.isProper = true
  | .varDecl d, h => by
    simp only [isControl, Bool.and_eq_true] at h
    simp [lines, Line.isProper, h.1.1, Expr.all_isPlainName_print h.2]
  | .funDecl _, h => by simp [isControl] at h
  | .classDecl _, h => by simp [isControl] at h
  | .expr e _, h => by
    rw [isControl] at h
    simp [lines, Line.isProper, Expr.isPlainName_print h]
  | .cond c t none _, h => by
    simp only [isControl, Bool.and_eq_true] at h
    rw [lines]
    exact Header.isProper_above (Expr.isPlainName_print h.1) (isProper_of_mem_lines t h.2)
  -- an `else` is a header like the others, with the lines of its branch below it
  | .cond c t (some e) _, h => by
    simp only [isControl, Bool.and_eq_true] at h
    rw [lines, List.forall_mem_append]
    exact ⟨Header.isProper_above (Expr.isPlainName_print h.1.1) (isProper_of_mem_lines t h.1.2),
      Header.isProper_above rfl (isProper_of_mem_lines e h.2)⟩
  | .loop c body _, h => by
    simp only [isControl, Bool.and_eq_true] at h
    rw [lines]
    exact Header.isProper_above (Expr.isPlainName_print h.1) (isProper_of_mem_lines body h.2)
  | .ret value _, h => by
    rw [isControl] at h
    simp [lines, Line.isProper, Expr.all_isPlainName_print h]
  | .block ⟨statements, _⟩, h => by
    rw [isControl] at h
    rw [lines, List.forall_mem_cons, List.forall_mem_append]
    exact ⟨rfl, isProper_of_mem_linesAll statements h, by simp [Line.isProper]⟩
  | .empty _, _ => by simp [lines, Line.isProper]

theorem isProper_of_mem_linesAll : (ss : List Stmt) → isControlAll ss = true →
    ∀ l ∈ linesAll ss, l.isProper = true
  | [], _ => by simp [linesAll]
  | s :: ss, h => by
    simp only [isControlAll, Bool.and_eq_true] at h
    rw [linesAll, List.forall_mem_append]
    exact ⟨isProper_of_mem_lines s h.1, isProper_of_mem_linesAll ss h.2⟩

end

end Stmt

theorem Header.toList_text (head : Header) :
    head.text.toList = (Line.header head false).text := by
  cases head <;>
    simp [Header.text, Line.text, Line.lead, Line.tail, Line.brace, Header.keyword, Header.condition]

theorem Header.toList_text_brace (head : Header) :
    (head.text ++ " " ++ "\x7b").toList = (Line.header head true).text := by
  simp [head.toList_text, Line.text, Line.lead, Line.tail, Line.brace]

/-- What stands between braces shows the lines in between. -/
theorem Shows.braced {depth : Nat} {header inside : String} {l : Line} {ls : List Line}
    (hheader : (header ++ "\x7b").toList = l.text) (hinside : Shows inside.toList ls) :
    Shows (FieldPromotion.braced depth header inside).toList (l :: (ls ++ [.closing])) := by
  have hopening : Shows (FieldPromotion.line depth (header ++ "\x7b")).toList [l] :=
    Shows.line hheader
  have hclosing : Shows (FieldPromotion.line depth "\x7d").toList [.closing] := Shows.line rfl
  simpa [FieldPromotion.braced] using hopening.append (hinside.append hclosing)

/-- The text of a statement shows its lines, alone and under a header. -/
structure Stmt.IsShown (s : Stmt) : Prop where
  alone : ∀ depth, Shows (s.printAt depth).toList s.lines
  under : ∀ head depth, Shows (printUnder depth (Header.text head) s).toList (head.above s.lines)

namespace Stmt

/-- Nothing but a block starts with an opening brace. -/
theorem head_lines_ne_opening {s : Stmt} (h : ∀ b, s ≠ .block b) :
    s.lines.head? ≠ some .opening := by
  cases s with
  | block b => exact absurd rfl (h b)
  | cond c t e span =>
    obtain ⟨opens, rest, habove⟩ := Header.exists_above (.cond c.print) t.lines
    cases e <;> simp [lines, habove]
  | loop c body span =>
    obtain ⟨opens, rest, habove⟩ := Header.exists_above (.loop c.print) body.lines
    simp [lines, habove]
  | _ => simp [lines]

/-- A statement other than a block stands below the header as it stands alone. -/
theorem IsShown.of_alone {s : Stmt} (hs : ∀ b, s ≠ .block b)
    (h : ∀ depth, Shows (s.printAt depth).toList s.lines) : s.IsShown where
  alone := h
  under head depth := by
    rw [Header.above_of_head_ne (head_lines_ne_opening hs), printUnder_of_ne hs, String.toList_append]
    exact (Shows.line head.toList_text).append (h (depth + 1))

/-- A variable without type is written on one line. -/
theorem toList_print_varDecl {d : VarDecl} (h : d.type.isNone = true) :
    d.print.toList = (Line.varDecl d.storage d.name.name (d.init.map Expr.print)).text := by
  rw [Option.isNone_iff_eq_none] at h
  cases hinit : d.init <;>
    simp [VarDecl.print, h, hinit, TypeExpr.printAfterColon, Expr.printAfterEquals, Line.text,
      Line.lead, Line.tail, Line.ending]

mutual

/-- The text of a statement of control flow shows its lines. -/
theorem isShown : (s : Stmt) → s.isControl = true → s.IsShown
  | .varDecl d, h => IsShown.of_alone (by simp) fun depth => by
    simp only [isControl, Bool.and_eq_true] at h
    rw [lines, printAt]
    exact Shows.line (toList_print_varDecl h.1.2)
  | .funDecl _, h => by simp [isControl] at h
  | .classDecl _, h => by simp [isControl] at h
  | .expr e _, h => IsShown.of_alone (by simp) fun depth => by
    rw [lines, printAt]
    exact Shows.line (by simp [Line.text, Line.lead, Line.tail])
  | .cond c t none _, h => IsShown.of_alone (by simp) fun depth => by
    simp only [isControl, Bool.and_eq_true] at h
    rw [lines, printAt_cond_none]
    exact (isShown t h.2).under (.cond c.print) depth
  | .cond c t (some e) _, h => IsShown.of_alone (by simp) fun depth => by
    simp only [isControl, Bool.and_eq_true] at h
    rw [lines, printAt_cond_some, String.toList_append]
    exact ((isShown t h.1.2).under (.cond c.print) depth).append
      ((isShown e h.2).under .otherwise depth)
  | .loop c body _, h => IsShown.of_alone (by simp) fun depth => by
    simp only [isControl, Bool.and_eq_true] at h
    rw [lines, printAt_loop]
    exact (isShown body h.2).under (.loop c.print) depth
  | .ret none _, h => IsShown.of_alone (by simp) fun depth => by
    rw [lines, printAt]
    exact Shows.line rfl
  | .ret (some e) _, h => IsShown.of_alone (by simp) fun depth => by
    rw [lines, printAt]
    exact Shows.line (by simp [Line.text, Line.lead, Line.tail, Line.ending])
  | .block ⟨statements, span⟩, h => by
    rw [isControl] at h
    -- the same lines stand inside, whether or not a header takes the brace
    refine ⟨fun depth => ?_, fun head depth => ?_⟩
    · rw [lines, printAt]
      exact Shows.braced rfl (shows_printAllAt statements h (depth + 1))
    · rw [lines, printUnder, Header.above]
      exact Shows.braced (head.toList_text_brace) (shows_printAllAt statements h (depth + 1))
  | .empty _, _ => IsShown.of_alone (by simp) fun depth => by
    rw [lines, printAt]
    exact Shows.line rfl

/-- The text of several statements shows their lines. -/
theorem shows_printAllAt : (ss : List Stmt) → isControlAll ss = true → (depth : Nat) →
    Shows (printAllAt depth ss).toList (linesAll ss)
  | [], _, _ => Shows.nil
  | s :: ss, h, depth => by
    simp only [isControlAll, Bool.and_eq_true] at h
    rw [printAllAt, linesAll, String.toList_append]
    exact ((isShown s h.1).alone depth).append (shows_printAllAt ss h.2 depth)

end

end Stmt

end FieldPromotion
