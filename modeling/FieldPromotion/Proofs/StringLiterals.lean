import FieldPromotion.Proofs.Tokens

/-!
# Where a string literal ends

In the text of a literal, a backslash takes the character after it as it is, and the first quote that is
not taken in this way ends the literal. A printed literal ends with its own last character, whatever
follows it, and what is read up to there is the string.
-/

namespace FieldPromotion

namespace Literal

/-! ## §1 Escaped positions -/

/-- A character is escaped if the one before it is a backslash that is not escaped itself. -/
def isEscaped (text : List Char) : Nat → Bool
  | 0 => false
  | i + 1 => text[i]? == some '\\' && !isEscaped text i

/-- The characters at the first `n` positions, without the backslashes that escape others. -/
def content (text : List Char) (n : Nat) : List Char :=
  ((List.range n).filter fun i => !isEscaped text (i + 1)).filterMap (text[·]?)

/-- The first quote that is not escaped stands at position `n`. -/
structure ClosesAt (text : List Char) (n : Nat) : Prop where
  quote : text[n]? = some '\''
  notEscaped : isEscaped text n = false
  first : ∀ i < n, text[i]? = some '\'' → isEscaped text i = true

section Shift

variable {c : Char} {text : List Char}

theorem isEscaped_cons (h : c ≠ '\\') (i : Nat) :
    isEscaped (c :: text) (i + 1) = isEscaped text i := by
  induction i with
  | zero => simp [isEscaped, h]
  | succ i ih => rw [isEscaped, ih, isEscaped, List.getElem?_cons_succ]

theorem isEscaped_backslash (i : Nat) :
    isEscaped ('\\' :: c :: text) (i + 2) = isEscaped text i := by
  induction i with
  | zero => simp [isEscaped]
  | succ i ih =>
    rw [isEscaped, ih, isEscaped, List.getElem?_cons_succ, List.getElem?_cons_succ]

theorem content_cons (h : c ≠ '\\') (n : Nat) :
    content (c :: text) (n + 1) = c :: content text n := by
  -- the first character escapes nothing, and the other positions move by one
  have hzero : isEscaped text 0 = false := rfl
  simp [content, List.range_succ_eq_map, isEscaped_cons h, hzero, List.filter_map,
    List.filterMap_map, Function.comp_def]

theorem content_backslash (n : Nat) :
    content ('\\' :: c :: text) (n + 2) = c :: content text n := by
  -- the backslash is left out and the character after it is not, and the others move by two
  have hfirst : isEscaped ('\\' :: c :: text) 1 = true := by simp [isEscaped]
  have hsecond : isEscaped ('\\' :: c :: text) 2 = false := isEscaped_backslash 0
  simp [content, List.range_succ_eq_map, hfirst, hsecond, isEscaped_backslash, List.filter_map,
    List.filterMap_map, Function.comp_def]

theorem ClosesAt.cons {n : Nat} (h : ClosesAt text n) (hslash : c ≠ '\\') (hquote : c ≠ '\'') :
    ClosesAt (c :: text) (n + 1) where
  quote := h.quote
  notEscaped := (isEscaped_cons hslash n).trans h.notEscaped
  first
    | 0, _, hc => absurd (Option.some.inj hc) hquote
    | i + 1, hi, hc => (isEscaped_cons hslash i).trans (h.first i (Nat.lt_of_succ_lt_succ hi) hc)

theorem ClosesAt.backslash {n : Nat} (h : ClosesAt text n) :
    ClosesAt ('\\' :: c :: text) (n + 2) where
  quote := h.quote
  notEscaped := (isEscaped_backslash n).trans h.notEscaped
  first
    | 0, _, hc => by simp at hc
    | 1, _, _ => by simp [isEscaped]
    | i + 2, hi, hc => (isEscaped_backslash i).trans (h.first i (by omega) hc)

end Shift

/-! ## §2 The scan -/

open Token (scanLiteral scanLiteral_escape)

/-- A scan stops at the first quote that is not escaped. -/
theorem closesAt_of_scanLiteral {text s rest : List Char}
    (h : scanLiteral text = some (s, rest)) :
    ∃ n, ClosesAt text n ∧ content text n = s ∧ text.drop (n + 1) = rest := by
  fun_induction scanLiteral text generalizing s rest with
  | case1 => cases h
  | case2 rest' =>
    cases h
    refine ⟨0, ⟨rfl, rfl, ?_⟩, rfl, rfl⟩
    intro i hi
    cases hi
  | case3 c text ih =>
    obtain ⟨⟨s', rest'⟩, hscan, heq⟩ := Option.map_eq_some_iff.mp h
    cases heq
    obtain ⟨n, hcloses, rfl, rfl⟩ := ih hscan
    exact ⟨n + 2, hcloses.backslash, content_backslash n, rfl⟩
  | case4 c text hquote hslash ih =>
    obtain ⟨⟨s', rest'⟩, hscan, heq⟩ := Option.map_eq_some_iff.mp h
    cases heq
    obtain ⟨n, hcloses, rfl, rfl⟩ := ih hscan
    -- a backslash with nothing after it is no literal
    have hne : c ≠ '\\' := by
      rintro rfl
      cases text with
      | nil => cases hcloses.quote
      | cons d text => exact hslash d text rfl rfl
    exact ⟨n + 1, hcloses.cons hne hquote, content_cons hne n, rfl⟩

/-! ## §3 Printed literals -/

/-- A text with every occurrence of a character replaced. -/
def replace (c : Char) (new text : List Char) : List Char :=
  text.flatMap fun d => if d = c then new else [d]

/-- First all backslashes are doubled, and then each quote gets a backslash. In the other order the
backslashes of the quotes would be doubled as well. -/
theorem flatMap_escape_eq_replace (s : List Char) :
    s.flatMap Expr.escape = replace '\'' ['\\', '\''] (replace '\\' ['\\', '\\'] s) := by
  rw [replace, replace, List.flatMap_assoc]
  refine List.flatMap_congr fun c _ => ?_
  unfold Expr.escape
  split
  · rfl
  · rfl
  · rename_i hslash hquote
    rw [if_neg hslash, List.flatMap_singleton, if_neg hquote]

end Literal

open Literal Token

/-- A printed literal is closed by its last character, and the string is read between its quotes. -/
theorem Expr.closesAt_print_string (s : String) (span : Span) :
    ∃ inside, (Expr.string s span).print.toList = '\'' :: (inside ++ ['\'']) ∧
      inside = replace '\'' ['\\', '\''] (replace '\\' ['\\', '\\'] s.toList) ∧
      ∀ rest, ClosesAt (inside ++ '\'' :: rest) inside.length ∧
        content (inside ++ '\'' :: rest) inside.length = s.toList ∧
        scanLiteral (inside ++ '\'' :: rest) = some (s.toList, rest) := by
  refine ⟨s.toList.flatMap Expr.escape, ?_, flatMap_escape_eq_replace s.toList, ?_⟩
  · simp [Expr.print, Expr.printString]
  intro rest
  have hscan := scanLiteral_escape s.toList rest
  obtain ⟨n, hcloses, hcontent, hrest⟩ := closesAt_of_scanLiteral hscan
  -- the scan leaves what follows the literal, so it stopped at the quote of the literal
  have hn : n = (s.toList.flatMap Expr.escape).length := by
    obtain ⟨hlt, -⟩ := List.getElem?_eq_some_iff.mp hcloses.quote
    have hlength := congrArg List.length hrest
    simp only [List.length_drop, List.length_append, List.length_cons] at hlength hlt
    omega
  rw [← hn]
  exact ⟨hcloses, hcontent, hscan⟩

end FieldPromotion
