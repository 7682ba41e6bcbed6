import FieldPromotion.Proofs.Numerals
import FieldPromotion.Proofs.SpanReset

/-!
# Tokens of an expression

The text of an expression is the text of its tokens, one after the other. Since two operands never
stand side by side, a text can be cut into tokens in one way only.
-/

namespace FieldPromotion

/-! ## §1 Words -/

/-- A list can be cut in one way only into a first part with a property and a rest that does not start
with it. -/
theorem append_inj_of_forall {α : Type} {p : α → Bool} {as bs cs ds : List α}
    (has : ∀ x ∈ as, p x = true) (hcs : ∀ x ∈ cs, p x = true) (hbs : ∀ x ∈ bs.head?, p x = false)
    (hds : ∀ x ∈ ds.head?, p x = false) (h : as ++ bs = cs ++ ds) : as = cs ∧ bs = ds := by
  have hcut : ∀ {l r : List α}, (∀ x ∈ l, p x = true) → (∀ x ∈ r.head?, p x = false) →
      (l ++ r).takeWhile p = l ∧ (l ++ r).dropWhile p = r := by
    intro l r hl hr
    rw [List.takeWhile_append_of_pos hl, List.dropWhile_append_of_pos hl]
    cases r with
    | nil => simp
    | cons x r => simp [hr x rfl]
  constructor
  · rw [← (hcut has hbs).1, h, (hcut hcs hds).1]
  · rw [← (hcut has hbs).2, h, (hcut hcs hds).2]

/-- Letters, digits and the underscore. -/
def isWordChar (c : Char) : Bool :=
  c.isAlphanum || c == '_'

/-- A word is made of letters, digits and underscores, and does not start with a digit. -/
def isWord (s : String) : Bool :=
  match s.toList with
  | [] => false
  | c :: cs => isWordChar c && !c.isDigit && cs.all isWordChar

/-- The words that stand for something else than a name. -/
def keywords : List String :=
  ["this", "super", "null", "true", "false"]

/-- A word that can be used as a name. -/
def isName (s : String) : Bool :=
  isWord s && !keywords.contains s

/-- The characters of words and numbers. -/
def isRunChar (c : Char) : Bool :=
  isWordChar c || c == '-'

theorem isRunChar_of_isDigit {c : Char} (h : c.isDigit = true) : isRunChar c = true := by
  simp [isRunChar, isWordChar, Char.isAlphanum, h]

/-- A word is made of characters that continue each other. -/
theorem isRunChar_of_isWord {s : String} (h : isWord s = true) :
    ∀ c ∈ s.toList, isRunChar c = true := by
  unfold isWord at h
  intro c hc
  split at h
  · cases h
  · rename_i first rest heq
    simp only [Bool.and_eq_true, List.all_eq_true] at h
    rw [heq] at hc
    rcases List.mem_cons.mp hc with rfl | hc
    · simp [isRunChar, h.1.1]
    · simp [isRunChar, h.2 c hc]

/-! ## §2 Tokens -/

/-- A piece of the text of an expression. A name, `this`, `super` and the literals that are spelled as
words are all words; a property comes with the dot before it. -/
inductive Token where
  | word (text : String)
  | int (value : Int64)
  | float (value : Float)
  | string (value : String)
  | property (name : String)
  | opening
  | comma
  | closing
  | equals

namespace Token

/-- How a token is written. -/
def text : Token → List Char
  | .word text => text.toList
  | .int value => (toString value.toInt).toList
  | .float value => (Decimal.sourceText value).toList
  | .string value => (Expr.printString value).toList
  | .property name => '.' :: name.toList
  | .opening => ['(']
  | .comma => [',', ' ']
  | .closing => [')']
  | .equals => [' ', '=', ' ']

/-- The tokens that a text can be told to start with: names are words, and there are no floats. -/
def isProper : Token → Bool
  | .word text => isWord text
  | .float _ => false
  | .property name => isWord name
  | _ => true

def isOperand : Token → Bool
  | .word _ | .int _ | .float _ | .string _ => true
  | _ => false

/-- The tokens after which an operand is expected. -/
def isJoint : Token → Bool
  | .opening | .comma | .equals => true
  | _ => false

/-- No operand stands directly after another one. -/
def Separated (ts : List Token) : Prop :=
  ts.IsChain fun t u => u.isOperand = true → t.isJoint = true

/-! ## §3 The first character -/

/-- The kinds of tokens. -/
inductive Kind where
  | word | int | float | string | property | opening | comma | closing | equals

def kind : Token → Kind
  | .word _ => .word
  | .int _ => .int
  | .float _ => .float
  | .string _ => .string
  | .property _ => .property
  | .opening => .opening
  | .comma => .comma
  | .closing => .closing
  | .equals => .equals

/-- What a token that starts with a character can be. -/
def kindOf (c : Char) : Kind :=
  if c = '\'' then .string
  else if c = '.' then .property
  else if c = '(' then .opening
  else if c = ',' then .comma
  else if c = ')' then .closing
  else if c = ' ' then .equals
  else if c.isDigit || c == '-' then .int
  else .word

/-- The first character of a run tells numbers from words. -/
theorem kindOf_of_isRunChar {c : Char} (h : isRunChar c = true) :
    kindOf c = if c.isDigit || c == '-' then .int else .word := by
  have hne : ∀ {d : Char}, isRunChar d = false → c ≠ d := by
    rintro d hd rfl
    rw [h] at hd
    cases hd
  rw [kindOf, if_neg (hne (by decide)), if_neg (hne (by decide)), if_neg (hne (by decide)),
    if_neg (hne (by decide)), if_neg (hne (by decide)), if_neg (hne (by decide))]

/-- The first character tells the kind of a token. -/
theorem exists_text_cons {t : Token} (h : t.isProper = true) :
    ∃ c cs, t.text = c :: cs ∧ kindOf c = t.kind := by
  cases t with
  | word w =>
    have hrun := isRunChar_of_isWord (s := w) h
    rw [isProper, isWord] at h
    split at h
    · cases h
    · rename_i c cs heq
      refine ⟨c, cs, heq, ?_⟩
      have hc : isRunChar c = true := hrun c (by simp [heq])
      rw [kindOf_of_isRunChar hc]
      -- a word starts neither with a digit nor with a sign
      have hdash : c ≠ '-' := by
        rintro rfl
        revert h
        simp [isWordChar, Char.isAlphanum, Char.isAlpha, Char.isUpper, Char.isLower, Char.isDigit]
      simp only [Bool.and_eq_true, Bool.not_eq_true'] at h
      simp [h.1.2, hdash, kind]
  | int v =>
    have hdigit : ∀ n c, c ∈ Nat.toDigits 10 n → c.isDigit = true := fun n c hc =>
      Nat.isDigit_of_mem_toDigits (by decide) (by decide) hc
    rw [text, Json.toList_toString]
    split
    · cases hdigits : Nat.toDigits 10 v.toInt.toNat with
      | nil => simp at hdigits
      | cons c cs =>
        have hc := hdigit _ c (by rw [hdigits]; exact List.mem_cons_self)
        refine ⟨c, cs, rfl, ?_⟩
        rw [kindOf_of_isRunChar (isRunChar_of_isDigit hc)]
        simp [hc, kind]
    · exact ⟨'-', _, rfl, rfl⟩
  | float v => cases h
  | string v =>
    refine ⟨'\'', v.toList.flatMap Expr.escape ++ ['\''], ?_, rfl⟩
    simp [text, Expr.printString]
  | property n => exact ⟨'.', n.toList, rfl, rfl⟩
  | opening => exact ⟨'(', [], rfl, rfl⟩
  | comma => exact ⟨',', [' '], rfl, rfl⟩
  | closing => exact ⟨')', [], rfl, rfl⟩
  | equals => exact ⟨' ', ['=', ' '], rfl, rfl⟩

/-! ## §4 Cutting off one token -/

/-- The content of a string literal up to the first quote that is not escaped, and what follows. -/
def scanLiteral : List Char → Option (List Char × List Char)
  | [] => none
  | '\'' :: rest => some ([], rest)
  | '\\' :: c :: rest => (scanLiteral rest).map fun r => (c :: r.1, r.2)
  | c :: rest => (scanLiteral rest).map fun r => (c :: r.1, r.2)

/-- A string literal is read back. -/
theorem scanLiteral_escape (cs rest : List Char) :
    scanLiteral (cs.flatMap Expr.escape ++ '\'' :: rest) = some (cs, rest) := by
  induction cs with
  | nil => simp [scanLiteral]
  | cons c cs ih =>
    rw [List.flatMap_cons, List.append_assoc]
    generalize cs.flatMap Expr.escape ++ '\'' :: rest = tail at ih ⊢
    unfold Expr.escape
    split
    · simp [scanLiteral, ih]
    · simp [scanLiteral, ih]
    · -- any other character stands for itself
      rename_i hslash hquote
      rw [List.singleton_append, scanLiteral, ih]
      · rfl
      · exact fun heq => hquote heq
      · exact fun d r heq => absurd heq hslash

/-- A text that does not go on with a word or a number. -/
def Stops (cs : List Char) : Prop :=
  ∀ c ∈ cs.head?, isRunChar c = false

/-- The tokens whose end is not marked. -/
def isRun : Token → Bool
  | .word _ | .int _ | .property _ => true
  | _ => false

/-- An integer is one run, with its sign. -/
theorem isRunChar_int (v : Int64) : ∀ c ∈ (toString v.toInt).toList, isRunChar c = true := by
  have hdigit : ∀ n c, c ∈ Nat.toDigits 10 n → isRunChar c = true := fun n c hc =>
    isRunChar_of_isDigit (Nat.isDigit_of_mem_toDigits (by decide) (by decide) hc)
  rw [Json.toList_toString]
  split
  · exact hdigit _
  · rw [List.forall_mem_cons]
    exact ⟨by decide, hdigit _⟩

/-- A text starts with one token only, if it does not go on with a word or a number after one. -/
theorem text_append_inj {t u : Token} {cs ds : List Char} (ht : t.isProper = true)
    (hu : u.isProper = true) (hcs : t.isRun = true → Stops cs) (hds : u.isRun = true → Stops ds)
    (h : t.text ++ cs = u.text ++ ds) : t = u ∧ cs = ds := by
  have hkind : t.kind = u.kind := by
    obtain ⟨c, cs', hc, hct⟩ := exists_text_cons ht
    obtain ⟨d, ds', hd, hdu⟩ := exists_text_cons hu
    rw [hc, hd, List.cons_append, List.cons_append, List.cons.injEq] at h
    rw [← hct, ← hdu, h.1]
  -- words and numbers end where the text stops, literals at their quote, all others have a fixed text
  cases t <;> cases u <;> simp only [kind, reduceCtorEq] at hkind
  case word.word v w =>
    obtain ⟨heq, hrest⟩ := append_inj_of_forall (isRunChar_of_isWord ht) (isRunChar_of_isWord hu)
      (hcs rfl) (hds rfl) h
    exact ⟨congrArg _ (String.toList_inj.mp heq), hrest⟩
  case int.int v w =>
    obtain ⟨heq, hrest⟩ := append_inj_of_forall (isRunChar_int v) (isRunChar_int w)
      (hcs rfl) (hds rfl) h
    rw [String.toList_inj, Int.toString_eq_repr, Int.toString_eq_repr, Int.repr_inj,
      Int64.toInt_inj] at heq
    exact ⟨congrArg _ heq, hrest⟩
  case float.float v w => cases ht
  case string.string v w =>
    have hscan : scanLiteral (v.toList.flatMap Expr.escape ++ '\'' :: cs) =
        scanLiteral (w.toList.flatMap Expr.escape ++ '\'' :: ds) :=
      congrArg scanLiteral (by simpa [text, Expr.printString] using h)
    rw [scanLiteral_escape, scanLiteral_escape, Option.some.injEq, Prod.mk.injEq] at hscan
    exact ⟨congrArg _ (String.toList_inj.mp hscan.1), hscan.2⟩
  case property.property v w =>
    rw [text, text, List.cons_append, List.cons_append, List.cons.injEq] at h
    obtain ⟨heq, hrest⟩ := append_inj_of_forall (isRunChar_of_isWord ht) (isRunChar_of_isWord hu)
      (hcs rfl) (hds rfl) h.2
    exact ⟨congrArg _ (String.toList_inj.mp heq), hrest⟩
  all_goals exact ⟨rfl, by simpa [text] using h⟩

/-- After a word or a number comes a token that does not continue it. -/
theorem stops_flatMap {t : Token} {ts : List Token} (h : Separated (t :: ts))
    (hts : ∀ u ∈ ts, u.isProper = true) (ht : t.isRun = true) : Stops (ts.flatMap text) := by
  cases ts with
  | nil => simp [Stops]
  | cons u us =>
    have hnot : u.isOperand = false := by
      rw [Separated, List.isChain_cons_cons] at h
      by_contra hyes
      have := h.1 (by simpa using hyes)
      cases t <;> simp_all [isRun, isJoint]
    obtain ⟨c, cs, htext, hkind⟩ := exists_text_cons (hts u List.mem_cons_self)
    rw [List.flatMap_cons, htext]
    intro d hd
    obtain rfl : c = d := by simpa using hd
    by_contra hrun
    rw [kindOf_of_isRunChar (by simpa using hrun)] at hkind
    -- words and numbers are operands
    cases u <;> simp [kind, isOperand] at hkind hnot <;> split at hkind <;> simp at hkind

/-- A text can be cut into tokens in one way only. -/
theorem flatMap_text_inj {ts us : List Token} (hts : ∀ t ∈ ts, t.isProper = true)
    (hus : ∀ u ∈ us, u.isProper = true) (hsep : Separated ts) (hsep' : Separated us)
    (h : ts.flatMap text = us.flatMap text) : ts = us := by
  induction ts generalizing us with
  | nil =>
    cases us with
    | nil => rfl
    | cons u us =>
      obtain ⟨c, cs, htext, -⟩ := exists_text_cons (hus u List.mem_cons_self)
      simp [htext] at h
  | cons t ts ih =>
    cases us with
    | nil =>
      obtain ⟨c, cs, htext, -⟩ := exists_text_cons (hts t List.mem_cons_self)
      simp [htext] at h
    | cons u us =>
      rw [List.forall_mem_cons] at hts hus
      rw [List.flatMap_cons, List.flatMap_cons] at h
      -- the first token ends at the same place in both texts
      obtain ⟨rfl, hrest⟩ := text_append_inj hts.1 hus.1 (stops_flatMap hsep hts.2)
        (stops_flatMap hsep' hus.2) h
      rw [ih hts.2 hus.2 hsep.tail hsep'.tail hrest]

end Token

/-! ## §5 The tokens of an expression -/

theorem Token.separated_singleton (t : Token) : Token.Separated [t] :=
  List.isChain_singleton t

/-- An operand may follow a joint, and any other token may follow any token. -/
theorem Token.Separated.cons {t : Token} {ts : List Token} (h : Token.Separated ts)
    (ht : t.isJoint = true) : Token.Separated (t :: ts) :=
  List.isChain_cons.mpr ⟨fun _ _ _ => ht, h⟩

/-- Two separated rows of tokens can be put together if there is no operand at the seam. -/
theorem Token.Separated.append {t : Token} {ts us : List Token} (h : Token.Separated ts)
    (ht : t.isOperand = false) (hus : Token.Separated (t :: us)) : Token.Separated (ts ++ t :: us) := by
  refine List.isChain_append.mpr ⟨h, hus, ?_⟩
  intro x _ y hy hoperand
  obtain rfl : t = y := by simpa using hy
  rw [ht] at hoperand
  cases hoperand

namespace Expr

mutual

/-- The tokens of an expression, in the order in which they are written. -/
def tokens : Expr → List Token
  | .int value _ => [.int value]
  | .float value _ => [.float value]
  | .string value _ => [.string value]
  | .bool value _ => [.word (if value then "true" else "false")]
  | .null _ => [.word "null"]
  | .ident id => [.word id.name]
  | .thisRef _ => [.word "this"]
  | .superRef _ => [.word "super"]
  | .member object property _ => object.tokens ++ [.property property.name]
  | .call callee [] _ => callee.tokens ++ [.opening, .closing]
  | .call callee (a :: as) _ =>
    callee.tokens ++ .opening :: (a.tokens ++ moreTokens as ++ [.closing])
  | .assign target value _ => target.tokens ++ .equals :: value.tokens

/-- The tokens of the arguments after the first one. -/
def moreTokens : List Expr → List Token
  | [] => []
  | a :: as => .comma :: (a.tokens ++ moreTokens as)

end

mutual

/-- The names of an expression can be told from other words, and there are no floats in it. -/
def isReadable : Expr → Bool
  | .float _ _ => false
  | .ident id => isName id.name
  | .member object property _ => object.isReadable && isName property.name
  | .call callee arguments _ => callee.isReadable && isReadableAll arguments
  | .assign target value _ => target.isReadable && value.isReadable
  | _ => true

def isReadableAll : List Expr → Bool
  | [] => true
  | e :: es => e.isReadable && isReadableAll es

end

/-- Arguments are separated by a comma and a blank. -/
theorem intercalate_printAll (a : Expr) (as : List Expr) :
    [',', ' '].intercalate ((printAll (a :: as)).map String.toList) =
      a.print.toList ++ as.flatMap fun b => ',' :: ' ' :: b.print.toList := by
  induction as generalizing a with
  | nil => simp [printAll]
  | cons b bs ih =>
    have hrest := ih b
    simp only [printAll, List.map_cons] at hrest ⊢
    rw [List.intercalate_cons_cons, hrest]
    simp

mutual

/-- The text of an expression is that of its tokens. -/
theorem toList_print : (e : Expr) → e.print.toList = e.tokens.flatMap Token.text
  | .int _ _ | .float _ _ | .string _ _ | .bool _ _ | .null _ | .ident _ | .thisRef _
  | .superRef _ => by simp [print, tokens, Token.text]
  | .member object property _ => by
    simp [print, tokens, Token.text, toList_print object]
  | .call callee [] _ => by simp [print, tokens, Token.text, printAll, toList_print callee]
  | .call callee (a :: as) _ => by
    simp [print, tokens, Token.text, intercalate_printAll, toList_print callee, toList_print a,
      flatMap_print as]
  | .assign target value _ => by
    simp [print, tokens, Token.text, toList_print target, toList_print value]

/-- The arguments after the first one are written by their tokens. -/
theorem flatMap_print : (es : List Expr) →
    (es.flatMap fun e => ',' :: ' ' :: e.print.toList) = (moreTokens es).flatMap Token.text
  | [] => by simp [moreTokens]
  | e :: es => by simp [moreTokens, Token.text, toList_print e, flatMap_print es]

end

mutual

/-- Readable expressions have proper tokens. -/
theorem isProper_tokens : (e : Expr) → e.isReadable = true → ∀ t ∈ e.tokens, t.isProper = true
  -- a double is not readable
  | .float _ _, h => by simp [isReadable] at h
  | .int _ _, _ | .string _ _, _ => by simp [tokens, Token.isProper]
  | .bool value _, _ => by cases value <;> simp [tokens, Token.isProper] <;> decide
  | .null _, _ | .thisRef _, _ | .superRef _, _ => by
    simp only [tokens, List.forall_mem_singleton, Token.isProper]
    decide
  | .ident id, h => by
    simp only [isReadable, isName, Bool.and_eq_true] at h
    simp [tokens, Token.isProper, h.1]
  | .member object property _, h => by
    simp only [isReadable, isName, Bool.and_eq_true] at h
    rw [tokens, List.forall_mem_append]
    exact ⟨isProper_tokens object h.1, by simp [Token.isProper, h.2.1]⟩
  | .call callee [] _, h => by
    simp only [isReadable, Bool.and_eq_true] at h
    rw [tokens, List.forall_mem_append]
    exact ⟨isProper_tokens callee h.1, by simp [Token.isProper]⟩
  | .call callee (a :: as) _, h => by
    simp only [isReadable, isReadableAll, Bool.and_eq_true] at h
    simp only [tokens, List.forall_mem_append, List.forall_mem_cons]
    exact ⟨isProper_tokens callee h.1, rfl, ⟨isProper_tokens a h.2.1, isProper_moreTokens as h.2.2⟩,
      rfl, by simp⟩
  | .assign target value _, h => by
    simp only [isReadable, Bool.and_eq_true] at h
    simp only [tokens, List.forall_mem_append, List.forall_mem_cons]
    exact ⟨isProper_tokens target h.1, rfl, isProper_tokens value h.2⟩

theorem isProper_moreTokens : (es : List Expr) → isReadableAll es = true →
    ∀ t ∈ moreTokens es, t.isProper = true
  | [], _ => by simp [moreTokens]
  | e :: es, h => by
    simp only [isReadableAll, Bool.and_eq_true] at h
    simp only [moreTokens, List.forall_mem_append, List.forall_mem_cons]
    exact ⟨rfl, isProper_tokens e h.1, isProper_moreTokens es h.2⟩

end

mutual

/-- Two operands never stand side by side in an expression. -/
theorem separated_tokens : (e : Expr) → Token.Separated e.tokens
  | .int _ _ | .float _ _ | .string _ _ | .bool _ _ | .null _ | .ident _ | .thisRef _
  | .superRef _ => Token.separated_singleton _
  | .member object _ _ => by
    rw [tokens]
    exact (separated_tokens object).append rfl (Token.separated_singleton _)
  -- between two operands there is always a bracket, a comma, a point or an equals sign
  | .call callee [] _ => by
    rw [tokens]
    exact (separated_tokens callee).append rfl ((Token.separated_singleton _).cons rfl)
  | .call callee (a :: as) _ => by
    rw [tokens]
    refine (separated_tokens callee).append rfl (Token.Separated.cons ?_ rfl)
    rw [List.append_assoc]
    exact separated_moreTokens as (separated_tokens a)
  | .assign target value _ => by
    rw [tokens]
    exact (separated_tokens target).append rfl ((separated_tokens value).cons rfl)

/-- Further arguments and the end of the list may follow an expression. -/
theorem separated_moreTokens : (as : List Expr) → {ts : List Token} → Token.Separated ts →
    Token.Separated (ts ++ (moreTokens as ++ [.closing]))
  | [], _, h => h.append rfl (Token.separated_singleton _)
  | a :: as, _, h => by
    rw [moreTokens, List.cons_append, List.append_assoc]
    exact h.append rfl ((separated_moreTokens as (separated_tokens a)).cons rfl)

end

/-- The text of an expression determines its tokens. -/
theorem tokens_eq_of_print {e e' : Expr} (he : e.isReadable = true) (he' : e'.isReadable = true)
    (h : e.print = e'.print) : e.tokens = e'.tokens := by
  apply Token.flatMap_text_inj (isProper_tokens e he) (isProper_tokens e' he')
    (separated_tokens e) (separated_tokens e')
  rw [← toList_print, ← toList_print, h]

end Expr

end FieldPromotion
