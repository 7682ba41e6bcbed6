import FieldPromotion.Proofs.Numerals
import FieldPromotion.Proofs.Traversal
import FieldPromotion.Tree.Print

/-!
# Texts on one line

Expressions, types, parameters and the headers of declarations are written without a newline, if there
is none in the names and the string literals that occur in them.
-/

namespace FieldPromotion

/-! ## §1 Names and literals among visits -/

namespace Visit

/-- The name or the string literal at a node. -/
def word? : Visit → Option String
  | .ident id => some id.name
  | .expr (.string value _) => some value
  | _ => none

/-- No name and no string literal among visits has a newline in it. -/
def OneLine (vs : List Visit) : Prop :=
  ∀ w ∈ vs.filterMap word?, '\n' ∉ w.toList

instance (vs : List Visit) : Decidable (OneLine vs) :=
  inferInstanceAs (Decidable (∀ w ∈ vs.filterMap word?, '\n' ∉ w.toList))

@[simp] theorem oneLine_nil : OneLine [] := by simp [OneLine]

/-- Two runs of visits are free of newlines if both are. -/
@[simp] theorem oneLine_append {vs ws : List Visit} :
    OneLine (vs ++ ws) ↔ OneLine vs ∧ OneLine ws := by
  simp only [OneLine, List.filterMap_append, List.forall_mem_append]

/-- A visit adds the word at its node, if there is one there. -/
@[simp] theorem oneLine_cons {v : Visit} {vs : List Visit} :
    OneLine (v :: vs) ↔ (∀ w ∈ v.word?, '\n' ∉ w.toList) ∧ OneLine vs := by
  rw [OneLine, List.filterMap_cons]
  cases v.word? <;> simp [OneLine]

/-- The same for a node with everything below it. -/
@[simp] theorem oneLine_andBelow {v : Visit} {below : List Visit} :
    OneLine (v.andBelow everywhere below) ↔ (∀ w ∈ v.word?, '\n' ∉ w.toList) ∧ OneLine below :=
  oneLine_cons

@[simp] theorem oneLine_ident {id : Ident} : OneLine [.ident id] ↔ '\n' ∉ id.name.toList := by
  simp [word?]

/-- The visits of several nodes are free of newlines if those of each node are. -/
@[simp] theorem oneLine_flatMap {α : Type} {visits : α → List Visit} {xs : List α} :
    OneLine (xs.flatMap visits) ↔ ∀ x ∈ xs, OneLine (visits x) := by
  simp only [OneLine, List.filterMap_flatMap, List.mem_flatMap]
  grind

/-- A node that may be left out only counts when it is there. -/
@[simp] theorem oneLine_ofOption {α : Type} {visits : α → List Visit} {x : Option α} :
    OneLine (ofOption visits x) ↔ ∀ a ∈ x, OneLine (visits a) := by
  cases x <;> simp [ofOption]

end Visit

open Visit (OneLine everywhere)

/-! ## §2 Types and expressions -/

/-- A list with commas is on one line if its items are. -/
theorem newline_not_mem_intercalate {texts : List String} (h : ∀ t ∈ texts, '\n' ∉ t.toList) :
    '\n' ∉ [',', ' '].intercalate (texts.map String.toList) := by
  induction texts with
  | nil => simp
  | cons t ts ih =>
    rw [List.forall_mem_cons] at h
    cases ts with
    | nil => simpa using h.1
    -- the separator has no newline either
    | cons u us =>
      have hrest := ih h.2
      rw [List.map_cons] at hrest
      rw [List.map_cons, List.map_cons, List.intercalate_cons_cons]
      simp [h.1, hrest]

/-- Numbers are written with digits, signs and letters. -/
theorem newline_not_mem_of_plain {cs : List Char} (h : Json.Plain cs) : '\n' ∉ cs :=
  fun hmem => absurd (h _ hmem).1 (by decide)

/-- Quotes and backslashes are escaped, and neither escape has a newline in it. -/
theorem newline_not_mem_escape {cs : List Char} (h : '\n' ∉ cs) :
    '\n' ∉ cs.flatMap Expr.escape := by
  intro hmem
  obtain ⟨c, hc, hmem⟩ := List.mem_flatMap.mp hmem
  -- a newline would come from an escape or be a character of the text itself
  unfold Expr.escape at hmem
  split at hmem
  · simp at hmem
  · simp at hmem
  · obtain rfl := List.mem_singleton.mp hmem
    exact h hc

mutual

/-- A type is written on one line. -/
theorem TypeExpr.newline_not_mem_print : (t : TypeExpr) → OneLine (t.visits everywhere) →
    '\n' ∉ t.print.toList
  | .primitive kind _, _ => by cases kind <;> simp [TypeExpr.print, Primitive.name]
  | .named name _, h => by
    simpa [TypeExpr.visits, TypeExpr.print, Visit.word?] using h
  -- what the visits say of the node is said of its name and of its arguments
  | .applied name args _, h => by
    obtain ⟨hname, hargs⟩ :
        '\n' ∉ name.name.toList ∧ OneLine (TypeExpr.visitsAll everywhere args) := by
      simpa [TypeExpr.visits, Visit.word?] using h
    have hlist := newline_not_mem_intercalate (TypeExpr.newline_not_mem_printAll args hargs)
    simp [TypeExpr.print, hname, hlist]
  | .array element _, h => by
    have helement : OneLine (element.visits everywhere) := by
      simpa [TypeExpr.visits, Visit.word?] using h
    simp [TypeExpr.print, TypeExpr.newline_not_mem_print element helement]

/-- So are the arguments of a type, each by itself. -/
theorem TypeExpr.newline_not_mem_printAll : (ts : List TypeExpr) →
    OneLine (TypeExpr.visitsAll everywhere ts) → ∀ text ∈ TypeExpr.printAll ts, '\n' ∉ text.toList
  | [], _ => by simp [TypeExpr.printAll]
  | t :: ts, h => by
    rw [TypeExpr.visitsAll, Visit.oneLine_append] at h
    rw [TypeExpr.printAll, List.forall_mem_cons]
    exact ⟨TypeExpr.newline_not_mem_print t h.1, TypeExpr.newline_not_mem_printAll ts h.2⟩

end

mutual

/-- An expression is written on one line. Names and string literals are the only texts in it that
come from the program. -/
theorem Expr.newline_not_mem_print : (e : Expr) → OneLine (e.visits everywhere) →
    '\n' ∉ e.print.toList
  | .int value _, _ => by
    rw [Expr.print]
    exact newline_not_mem_of_plain (Json.plain_toString _)
  | .float value _, _ => by
    rw [Expr.print]
    exact newline_not_mem_of_plain (Json.plain_sourceText value)
  | .string value _, h => by
    have hvalue : '\n' ∉ value.toList := by simpa [Expr.visits, Visit.word?] using h
    -- `simp` would open the membership in the escaped text, and the fact would not apply
    have hinside := newline_not_mem_escape hvalue
    simp [Expr.print, Expr.printString, -List.mem_flatMap, hinside]
  | .bool value _, _ => by cases value <;> simp [Expr.print]
  | .null _, _ | .thisRef _, _ | .superRef _, _ => by simp [Expr.print]
  | .ident id, h => by simpa [Expr.visits, Expr.print, Visit.word?] using h
  | .member object property _, h => by
    obtain ⟨hobject, hname⟩ :
        OneLine (object.visits everywhere) ∧ '\n' ∉ property.name.toList := by
      simpa [Expr.visits, Visit.word?] using h
    simp [Expr.print, Expr.newline_not_mem_print object hobject, hname]
  | .call callee arguments _, h => by
    obtain ⟨hcallee, harguments⟩ :
        OneLine (callee.visits everywhere) ∧ OneLine (Expr.visitsAll everywhere arguments) := by
      simpa [Expr.visits, Visit.word?] using h
    have hlist := newline_not_mem_intercalate (Expr.newline_not_mem_printAll arguments harguments)
    simp [Expr.print, Expr.newline_not_mem_print callee hcallee, hlist]
  | .assign target value _, h => by
    obtain ⟨htarget, hvalue⟩ :
        OneLine (target.visits everywhere) ∧ OneLine (value.visits everywhere) := by
      simpa [Expr.visits, Visit.word?] using h
    simp [Expr.print, Expr.newline_not_mem_print target htarget,
      Expr.newline_not_mem_print value hvalue]

/-- So are the arguments of a call, each by itself. -/
theorem Expr.newline_not_mem_printAll : (es : List Expr) →
    OneLine (Expr.visitsAll everywhere es) → ∀ text ∈ Expr.printAll es, '\n' ∉ text.toList
  | [], _ => by simp [Expr.printAll]
  | e :: es, h => by
    rw [Expr.visitsAll, Visit.oneLine_append] at h
    rw [Expr.printAll, List.forall_mem_cons]
    exact ⟨Expr.newline_not_mem_print e h.1, Expr.newline_not_mem_printAll es h.2⟩

end

/-! ## §3 Parameters and declarations -/

/-- A type that may be left out, together with the colon in front of it. -/
theorem TypeExpr.newline_not_mem_printAfterColon {t : Option TypeExpr}
    (h : ∀ a ∈ t, OneLine (a.visits everywhere)) :
    '\n' ∉ (TypeExpr.printAfterColon t).toList := by
  cases t with
  | none => simp [TypeExpr.printAfterColon]
  | some t => simp [TypeExpr.printAfterColon, TypeExpr.newline_not_mem_print t (h t rfl)]

/-- A value that may be left out, together with the sign in front of it. -/
theorem Expr.newline_not_mem_printAfterEquals {e : Option Expr}
    (h : ∀ a ∈ e, OneLine (a.visits everywhere)) :
    '\n' ∉ (Expr.printAfterEquals e).toList := by
  cases e with
  | none => simp [Expr.printAfterEquals]
  | some e => simp [Expr.printAfterEquals, Expr.newline_not_mem_print e (h e rfl)]

/-- An annotation is written on one line, with or without arguments. -/
theorem Metadata.newline_not_mem_print {m : Metadata} (h : OneLine (m.visits everywhere)) :
    '\n' ∉ m.print.toList := by
  obtain ⟨hname, hargs⟩ :
      '\n' ∉ m.name.name.toList ∧ OneLine (Expr.visitsAll everywhere m.args) := by
    simpa [Metadata.visits, Visit.word?] using h
  have hlist := newline_not_mem_intercalate (Expr.newline_not_mem_printAll m.args hargs)
  rw [Metadata.print]
  split <;> simp [hname, hlist]

theorem Metadata.newline_not_mem_printAll {ms : List Metadata}
    (h : ∀ m ∈ ms, OneLine (m.visits everywhere)) : '\n' ∉ (Metadata.printAll ms).toList := by
  have hprint : ∀ m ∈ ms, '\n' ∉ m.print.toList := by
    intro m hm
    exact Metadata.newline_not_mem_print (h m hm)
  simpa [Metadata.printAll] using hprint

/-- No keyword has a newline in it. -/
theorem Keyword.newline_not_mem_text (k : Keyword) : '\n' ∉ k.text.toList := by
  -- five words, all of them fixed
  rcases k with s | v | _
  · cases s <;> simp [Keyword.text, Storage.keyword]
  · cases v <;> simp [Keyword.text, Visibility.keyword]
  · simp [Keyword.text]

/-- A keyword that may be left out. -/
theorem newline_not_mem_ite (b : Bool) {text : String} (h : '\n' ∉ text.toList) :
    '\n' ∉ (if b then text else "").toList := by
  cases b with
  | false => simp
  | true => simpa using h

theorem Storage.newline_not_mem_keyword (s : Storage) : '\n' ∉ s.keyword.toList :=
  (Keyword.storage s).newline_not_mem_text

theorem Visibility.newline_not_mem_keyword (v : Visibility) : '\n' ∉ v.keyword.toList :=
  (Keyword.visibility v).newline_not_mem_text

/-- A parameter is written on one line, with its annotations and keywords. -/
theorem Param.newline_not_mem_print {p : Param} (h : OneLine (p.visits everywhere)) :
    '\n' ∉ p.print.toList := by
  simp only [Param.visits, Visit.word?, Visit.oneLine_andBelow, Visit.oneLine_append,
    Visit.oneLine_flatMap, Visit.oneLine_ident, Visit.oneLine_ofOption] at h
  -- the visits of a parameter go through its parts in the order in which they are written
  obtain ⟨-, ⟨⟨hmetadata, hname⟩, htype⟩, hdefault⟩ := h
  simp [Param.print, Metadata.newline_not_mem_printAll hmetadata, Keyword.newline_not_mem_text,
    hname, TypeExpr.newline_not_mem_printAfterColon htype,
    Expr.newline_not_mem_printAfterEquals hdefault]

/-- So is a whole parameter list. -/
theorem Param.newline_not_mem_printAll {ps : List Param}
    (h : ∀ p ∈ ps, OneLine (p.visits everywhere)) : '\n' ∉ (Param.printAll ps).toList := by
  rw [Param.printAll, String.toList_intercalate]
  refine newline_not_mem_intercalate ?_
  rw [List.forall_mem_map]
  exact fun p hp => Param.newline_not_mem_print (h p hp)

/-- A variable is written on one line. -/
theorem VarDecl.newline_not_mem_print {d : VarDecl} (h : OneLine (d.visits everywhere)) :
    '\n' ∉ d.print.toList := by
  simp only [VarDecl.visits, Visit.word?, Visit.oneLine_andBelow, Visit.oneLine_append,
    Visit.oneLine_ident, Visit.oneLine_ofOption] at h
  obtain ⟨-, ⟨hname, htype⟩, hinit⟩ := h
  simp [VarDecl.print, Storage.newline_not_mem_keyword, hname,
    TypeExpr.newline_not_mem_printAfterColon htype, Expr.newline_not_mem_printAfterEquals hinit]

/-- A field is written on one line, with its annotations and keywords. -/
theorem FieldDecl.newline_not_mem_print {d : FieldDecl} (h : OneLine (d.visits everywhere)) :
    '\n' ∉ d.print.toList := by
  simp only [FieldDecl.visits, Visit.word?, Visit.oneLine_andBelow, Visit.oneLine_append,
    Visit.oneLine_flatMap, Visit.oneLine_ident, Visit.oneLine_ofOption] at h
  obtain ⟨-, ⟨⟨hmetadata, hname⟩, htype⟩, hinit⟩ := h
  have hstatic : '\n' ∉ (if d.isStatic then "static " else "").toList :=
    newline_not_mem_ite d.isStatic (by simp)
  simp [FieldDecl.print, Metadata.newline_not_mem_printAll hmetadata,
    Visibility.newline_not_mem_keyword, hstatic, Storage.newline_not_mem_keyword, hname,
    TypeExpr.newline_not_mem_printAfterColon htype, Expr.newline_not_mem_printAfterEquals hinit]

/-- The name, the parameters and the result of a function or a method are on one line. -/
theorem newline_not_mem_printSignature {name : Ident} {params : List Param}
    {returns : Option TypeExpr} (hname : '\n' ∉ name.name.toList)
    (hparams : ∀ p ∈ params, OneLine (p.visits everywhere))
    (hreturns : ∀ t ∈ returns, OneLine (t.visits everywhere)) :
    '\n' ∉ (printSignature name params returns).toList := by
  simp [printSignature, hname, Param.newline_not_mem_printAll hparams,
    TypeExpr.newline_not_mem_printAfterColon hreturns]

/-- Everything in front of the body of a method is on one line. -/
theorem newline_not_mem_printMethodHeader {metadata : List Metadata} {name : Ident}
    {params : List Param} {returns : Option TypeExpr}
    (hmetadata : ∀ m ∈ metadata, OneLine (m.visits everywhere)) (hname : '\n' ∉ name.name.toList)
    (hparams : ∀ p ∈ params, OneLine (p.visits everywhere))
    (hreturns : ∀ t ∈ returns, OneLine (t.visits everywhere)) (visibility : Visibility)
    (isAbstract isStatic : Bool) :
    '\n' ∉ (printMethodHeader metadata visibility isAbstract isStatic name params returns).toList := by
  have hstatic : '\n' ∉ (if isStatic then "static " else "").toList :=
    newline_not_mem_ite isStatic (by simp)
  have habstract : '\n' ∉ (if isAbstract then "abstract " else "").toList :=
    newline_not_mem_ite isAbstract (by simp)
  simp [printMethodHeader, Metadata.newline_not_mem_printAll hmetadata,
    Visibility.newline_not_mem_keyword, hstatic, habstract,
    newline_not_mem_printSignature hname hparams hreturns]

/-- Everything in front of the members of a class is on one line. -/
theorem newline_not_mem_printClassHeader {metadata : List Metadata} {name : Ident}
    {superclass : Option Ident} (hmetadata : ∀ m ∈ metadata, OneLine (m.visits everywhere))
    (hname : '\n' ∉ name.name.toList) (hsuper : ∀ s ∈ superclass, '\n' ∉ s.name.toList)
    (isAbstract : Bool) :
    '\n' ∉ (printClassHeader metadata isAbstract name superclass).toList := by
  have habstract : '\n' ∉ (if isAbstract then "abstract " else "").toList :=
    newline_not_mem_ite isAbstract (by simp)
  cases superclass with
  | none =>
    simp [printClassHeader, Metadata.newline_not_mem_printAll hmetadata, habstract, hname]
  | some s =>
    simp [printClassHeader, Metadata.newline_not_mem_printAll hmetadata, habstract, hname,
      hsuper s rfl]

end FieldPromotion
