import FieldPromotion.Proofs.Numerals

/-!
# Reading what is written

The text of a JSON value, in either layout, is read to its end, and its draft is the value itself. This
holds for every value whose doubles are read back from their texts.
-/

namespace FieldPromotion.Json

variable {c : Char} {cs rest : List Char} {style : Style} {depth fuel : Nat}

/-! ## §1 Strings -/

/-- Hexadecimal digits are read back. -/
theorem hexValue?_hexDigit {n : Nat} (h : n < 16) : hexValue? (hexDigit n) = some n := by
  interval_cases n <;> decide

/-- The long form of a control character is read back. -/
theorem scanString_control {chars : List Char} (h : c.toNat < 0x20) :
    scanString { chars } ('\\' :: 'u' :: '0' :: '0' :: hexDigit (c.toNat / 16) ::
      hexDigit (c.toNat % 16) :: cs) = scanString { chars := c :: chars } cs := by
  have hhigh := hexValue?_hexDigit (show c.toNat / 16 < 16 by omega)
  have hlow := hexValue?_hexDigit (show c.toNat % 16 < 16 by omega)
  have hvalue : hexValue4? '0' '0' (hexDigit (c.toNat / 16)) (hexDigit (c.toNat % 16)) =
      some c.toNat := by
    have hzero : hexValue? '0' = some 0 := by decide
    have hsum : c.toNat / 16 * 16 + c.toNat % 16 = c.toNat := by omega
    simp [hexValue4?, hhigh, hlow, hzero, hsum]
  -- a control character is not half of a pair
  have hunit : StringState.unit { chars } c.toNat = { chars := c :: chars } := by
    rw [StringState.unit, if_neg (by omega), if_neg (by omega), Char.ofNat_toNat]
    rfl
  rw [scanString, hvalue]
  simp only [hunit]

/-- A character that needs no escape stands for itself. -/
theorem scanString_plain {chars : List Char} (hquote : c ≠ '"') (hbackslash : c ≠ '\\')
    (h : ¬ c.toNat < 0x20) :
    scanString { chars } (c :: cs) = scanString { chars := c :: chars } cs := by
  rw [scanString, if_neg h]
  · rfl
  · exact hquote
  all_goals
    intros
    exact hbackslash (by assumption)

/-- An escaped character is read as that character. -/
theorem scanString_escape (chars : List Char) (c : Char) (cs : List Char) :
    scanString { chars } ((escape c).toList ++ cs) = scanString { chars := c :: chars } cs := by
  unfold escape
  -- seven characters have a short form
  split
  · rfl
  · rfl
  · rfl
  · rfl
  · rfl
  · rfl
  · rfl
  · rename_i hquote hbackslash _ _ _ _ _
    split
    · rename_i hlt
      simpa using scanString_control hlt
    · rename_i hle
      simpa using scanString_plain hquote hbackslash hle

/-- A quoted string is read as that string. -/
theorem scanString_escapes (chars : List Char) (s : List Char) (rest : List Char) :
    scanString { chars } ((String.join (s.map escape)).toList ++ '"' :: rest) =
      ({ text := .ok (String.ofList (chars.reverse ++ s)) }, rest) := by
  induction s generalizing chars with
  | nil => simp [scanString, StringState.finish, StringState.settle]
  | cons c s ih =>
    have hjoin : (String.join ((c :: s).map escape)).toList =
        (escape c).toList ++ (String.join (s.map escape)).toList := by
      simp
    rw [hjoin, List.append_assoc, scanString_escape, ih]
    simp

/-- A quoted string is read back, and the rest is what comes after its closing quote. -/
theorem scanString_quote (s : String) (rest : List Char) :
    scanString {} ((String.join (s.toList.map escape)).toList ++ '"' :: rest) =
      ({ text := .ok s }, rest) := by
  rw [scanString_escapes]
  simp

/-! ## §2 Blanks -/

/-- Blanks in front are skipped. -/
theorem skipBlanks_append (h : ∀ c ∈ cs, isBlank c = true) (rest : List Char) :
    skipBlanks (cs ++ rest) = skipBlanks rest := by
  induction cs with
  | nil => rfl
  | cons c cs ih =>
    rw [List.cons_append, skipBlanks, if_pos (h c List.mem_cons_self)]
    exact ih fun c hc => h c (List.mem_cons_of_mem _ hc)

/-- What separates the items is made of blanks, in either layout. -/
theorem isBlank_lineBreak (style : Style) (depth : Nat) :
    ∀ c ∈ (style.lineBreak depth).toList, isBlank c = true := by
  cases style with
  | compact => simp [Style.lineBreak]
  | pretty => simp [Style.lineBreak, isBlank]

/-- A colon, and what stands between it and a value. -/
theorem colon_eq (style : Style) :
    ∃ blanks, style.colon.toList = ':' :: blanks ∧ ∀ c ∈ blanks, isBlank c = true := by
  cases style with
  | compact => exact ⟨[], rfl, nofun⟩
  | pretty => exact ⟨[' '], rfl, by simp [isBlank]⟩

/-- Blanks end a number, and so does what follows them. -/
theorem ends_blanks (h : ∀ c ∈ cs, isBlank c = true) (hrest : Ends rest) : Ends (cs ++ rest) := by
  cases cs with
  | nil => exact hrest
  | cons c cs =>
    have hc : c = ' ' ∨ c = '\t' ∨ c = '\n' ∨ c = '\r' := by
      simpa [isBlank, or_assoc] using h c List.mem_cons_self
    rw [List.cons_append, ends_cons]
    rcases hc with rfl | rfl | rfl | rfl <;> decide

/-- Blanks in front of a value make no difference. -/
theorem scanValue_skipBlanks (h : skipBlanks cs = skipBlanks rest) :
    scanValue fuel cs = scanValue fuel rest := by
  cases fuel with
  | zero => rfl
  | succ fuel => rw [scanValue, scanValue, h]

theorem scanEntries_skipBlanks {afterComma : Bool} (h : skipBlanks cs = skipBlanks rest) :
    scanEntries fuel afterComma cs = scanEntries fuel afterComma rest := by
  cases fuel with
  | zero => rfl
  | succ fuel => rw [scanEntries, scanEntries, h]

/-! ## §3 Drafts of values -/

mutual

/-- The draft of a value: what is read from its text. -/
def draft : Json → Draft
  | .null => .null
  | .bool b => .bool b
  | .int i => (scanScalar (Json.int i).compact.toList).1
  | .float x => (scanScalar (Json.float x).compact.toList).1
  | .str s => .string { text := .ok s }
  | .arr items => .array (draftItems items) .closed
  | .obj entries => .object (draftEntries entries) .closed

/-- The drafts of a list of values. -/
def draftItems : List Json → List Draft
  | [] => []
  | x :: xs => x.draft :: draftItems xs

/-- The drafts of a list of entries. -/
def draftEntries : List (String × Json) → List (Quoted × Draft)
  | [] => []
  | (k, x) :: xs => ({ text := .ok k }, x.draft) :: draftEntries xs

end

mutual

/-- The doubles in a value. -/
def floats : Json → List Float
  | .float x => [x]
  | .arr items => floatsItems items
  | .obj entries => floatsEntries entries
  | _ => []

/-- The doubles in a list of values. -/
def floatsItems : List Json → List Float
  | [] => []
  | x :: xs => x.floats ++ floatsItems xs

/-- The doubles in a list of entries. -/
def floatsEntries : List (String × Json) → List Float
  | [] => []
  | (_, x) :: xs => x.floats ++ floatsEntries xs

end

/-! ## §4 Values in a text -/

/-- `Scans text draft`: where a value stands in a text as `text`, it is read as `draft`. As much fuel as
there is for the whole text is enough. -/
structure Scans (text : List Char) (draft : Draft) : Prop where
  start : ∃ c cs, text = c :: cs ∧ isBlank c = false ∧ c ≠ ']'
  scan : ∀ fuel rest, 2 * text.length ≤ fuel → Ends rest →
    scanValue fuel (text ++ rest) = (draft, some rest)

/-- The same for the items of an array. They are followed by `tail`, which closes the array. -/
structure ScansItems (text : List Char) (drafts : List Draft) : Prop where
  start : ∃ c cs, text = c :: cs ∧ isBlank c = false ∧ c ≠ ']'
  scan : ∀ fuel tail rest, 2 * text.length + 1 ≤ fuel → Ends tail → skipBlanks tail = ']' :: rest →
    scanItems fuel (text ++ tail) = (drafts, .closed, some rest)

/-- The same for the entries of an object. -/
structure ScansEntries (text : List Char) (drafts : List (Quoted × Draft)) : Prop where
  start : ∃ cs, text = '"' :: cs
  scan : ∀ fuel afterComma tail rest, 2 * text.length + 1 ≤ fuel → Ends tail →
    skipBlanks tail = '\x7d' :: rest →
    scanEntries fuel afterComma (text ++ tail) = (drafts, .closed, some rest)

section Arrays

variable {text texts blanks blanks' : List Char} {draft : Draft} {drafts : List Draft}

/-- One value makes a list of items. -/
theorem Scans.items (h : Scans text draft) : ScansItems text [draft] where
  start := h.start
  scan := by
    intro fuel tail rest hfuel htail hclose
    obtain ⟨fuel, rfl⟩ := Nat.exists_eq_add_one_of_ne_zero (n := fuel) (by omega)
    rw [scanItems, h.scan fuel tail (by omega) htail]
    simp only [hclose]

/-- A value and a comma go in front of a list of items. -/
theorem ScansItems.cons (h : Scans text draft) (hs : ScansItems texts drafts)
    (hblanks : ∀ c ∈ blanks, isBlank c = true) :
    ScansItems (text ++ ',' :: (blanks ++ texts)) (draft :: drafts) where
  start := by
    obtain ⟨c, cs, rfl, hc⟩ := h.start
    exact ⟨c, _, rfl, hc⟩
  scan := by
    intro fuel tail rest hfuel htail hclose
    simp only [List.length_append, List.length_cons] at hfuel
    obtain ⟨fuel, rfl⟩ := Nat.exists_eq_add_one_of_ne_zero (n := fuel) (by omega)
    obtain ⟨c, cs, hstart, hc, hbracket⟩ := hs.start
    have hcomma : Ends (',' :: (blanks ++ texts ++ tail)) := ends_cons.mpr (by decide)
    have hnext : skipBlanks (blanks ++ texts ++ tail) = texts ++ tail := by
      rw [List.append_assoc, skipBlanks_append hblanks, hstart]
      exact skipBlanks_cons hc
    have hrest := hs.scan fuel tail rest (by omega) htail hclose
    rw [List.append_assoc, List.cons_append, scanItems, h.scan fuel _ (by omega) hcomma]
    simp only [skipBlanks_cons (show isBlank ',' = false by decide), hnext]
    rw [hstart] at hrest ⊢
    -- the next item does not start with a bracket
    split
    · rename_i heq
      cases heq
    · rename_i heq
      cases heq
      exact absurd rfl hbracket
    · rw [hrest]

/-- An array with items. -/
theorem ScansItems.arr (hs : ScansItems texts drafts) (hblanks : ∀ c ∈ blanks, isBlank c = true)
    (hblanks' : ∀ c ∈ blanks', isBlank c = true) :
    Scans ('[' :: (blanks ++ (texts ++ (blanks' ++ [']'])))) (.array drafts .closed) where
  start := ⟨'[', _, rfl, by decide⟩
  scan := by
    intro fuel rest hfuel hrest
    simp only [List.length_append, List.length_cons] at hfuel
    obtain ⟨fuel, rfl⟩ := Nat.exists_eq_add_one_of_ne_zero (n := fuel) (by omega)
    obtain ⟨c, cs, hstart, hc, hbracket⟩ := hs.start
    -- a closing bracket ends a number
    have hclose : Ends (']' :: rest) := ends_cons.mpr (by decide)
    have hitems := hs.scan fuel (blanks' ++ ']' :: rest) rest (by omega)
      (ends_blanks hblanks' hclose)
      (by rw [skipBlanks_append hblanks', skipBlanks_cons (by decide)])
    rw [List.cons_append, scanValue, skipBlanks_cons (by decide)]
    simp only [List.append_assoc, List.singleton_append, skipBlanks_append hblanks]
    rw [hstart] at hitems ⊢
    rw [List.cons_append, skipBlanks_cons hc]
    -- the first item starts with a character that is not a bracket, so the array is not empty
    split
    · rename_i heq
      cases heq
    · rename_i heq
      cases heq
      exact absurd rfl hbracket
    · rw [List.cons_append] at hitems
      rw [hitems]

end Arrays

section Objects

variable {text texts blanks blanks' : List Char} {draft : Draft} {drafts : List (Quoted × Draft)}

/-- A quoted string has its quotes at the ends. -/
theorem toList_quote (s : String) : (quote s).toList =
    '"' :: ((String.join (s.toList.map escape)).toList ++ ['"']) := by
  simp [quote]

/-- The value of an entry, after the colon. -/
theorem Scans.scan_blanks (h : Scans text draft) (hblanks : ∀ c ∈ blanks, isBlank c = true)
    (hfuel : 2 * text.length ≤ fuel) (hrest : Ends rest) :
    scanValue fuel (blanks ++ (text ++ rest)) = (draft, some rest) := by
  rw [← h.scan fuel rest hfuel hrest]
  exact scanValue_skipBlanks (skipBlanks_append hblanks _)

/-- A key with a value makes a list of entries. -/
theorem Scans.entries (h : Scans text draft) (key : String)
    (hblanks : ∀ c ∈ blanks, isBlank c = true) :
    ScansEntries ((quote key).toList ++ ':' :: (blanks ++ text)) [({ text := .ok key }, draft)] where
  start := by
    rw [toList_quote]
    exact ⟨_, rfl⟩
  scan := by
    intro fuel afterComma tail rest hfuel htail hclose
    simp only [List.length_append, List.length_cons] at hfuel
    obtain ⟨fuel, rfl⟩ := Nat.exists_eq_add_one_of_ne_zero (n := fuel) (by omega)
    have hvalue : scanValue fuel (blanks ++ (text ++ tail)) = (draft, some tail) :=
      h.scan_blanks hblanks (by omega) htail
    rw [toList_quote, List.cons_append, List.cons_append, scanEntries, skipBlanks_cons (by decide)]
    simp only [List.append_assoc, List.cons_append, List.nil_append, scanString_quote,
      skipBlanks_cons (show isBlank ':' = false by decide), hvalue, hclose]

/-- A key with a value and a comma goes in front of a list of entries. -/
theorem ScansEntries.cons (h : Scans text draft) (hs : ScansEntries texts drafts) (key : String)
    (hblanks : ∀ c ∈ blanks, isBlank c = true) (hblanks' : ∀ c ∈ blanks', isBlank c = true) :
    ScansEntries ((quote key).toList ++ ':' :: (blanks ++ (text ++ ',' :: (blanks' ++ texts))))
      (({ text := .ok key }, draft) :: drafts) where
  start := by
    rw [toList_quote]
    exact ⟨_, rfl⟩
  scan := by
    intro fuel afterComma tail rest hfuel htail hclose
    simp only [List.length_append, List.length_cons] at hfuel
    obtain ⟨fuel, rfl⟩ := Nat.exists_eq_add_one_of_ne_zero (n := fuel) (by omega)
    -- a comma ends a number
    have hcomma : Ends (',' :: (blanks' ++ (texts ++ tail))) := ends_cons.mpr (by decide)
    have hvalue := h.scan_blanks hblanks (show 2 * text.length ≤ fuel by omega) hcomma
    have hrest : scanEntries fuel true (blanks' ++ (texts ++ tail)) = (drafts, .closed, some rest) := by
      rw [← hs.scan fuel true tail rest (by omega) htail hclose]
      exact scanEntries_skipBlanks (skipBlanks_append hblanks' _)
    rw [toList_quote, List.cons_append, List.cons_append, scanEntries, skipBlanks_cons (by decide)]
    simp only [List.append_assoc, List.cons_append, List.nil_append, scanString_quote,
      skipBlanks_cons (show isBlank ':' = false by decide), hvalue,
      skipBlanks_cons (show isBlank ',' = false by decide), hrest]

/-- An object with entries. -/
theorem ScansEntries.obj (hs : ScansEntries texts drafts)
    (hblanks : ∀ c ∈ blanks, isBlank c = true) (hblanks' : ∀ c ∈ blanks', isBlank c = true) :
    Scans ('\x7b' :: (blanks ++ (texts ++ (blanks' ++ ['\x7d'])))) (.object drafts .closed) where
  start := ⟨'\x7b', _, rfl, by decide⟩
  scan := by
    intro fuel rest hfuel hrest
    simp only [List.length_append, List.length_cons] at hfuel
    obtain ⟨fuel, rfl⟩ := Nat.exists_eq_add_one_of_ne_zero (n := fuel) (by omega)
    obtain ⟨cs, hstart⟩ := hs.start
    -- so does a closing brace
    have hclose : Ends ('\x7d' :: rest) := ends_cons.mpr (by decide)
    have hentries := hs.scan fuel false (blanks' ++ '\x7d' :: rest) rest (by omega)
      (ends_blanks hblanks' hclose)
      (by rw [skipBlanks_append hblanks', skipBlanks_cons (by decide)])
    rw [List.cons_append, scanValue, skipBlanks_cons (by decide)]
    simp only [List.append_assoc, List.singleton_append, skipBlanks_append hblanks]
    rw [hstart, List.cons_append] at hentries ⊢
    rw [skipBlanks_cons (by decide)]
    exact congrArg (fun read => (Draft.object read.1 read.2.1, read.2.2)) hentries

end Objects

/-! ## §5 The text of a value -/

/-- A value that is neither array nor object is scanned as such, if its first character tells. -/
theorem Scans.of_scalar {draft : Draft} (hc : isBlank c = false ∧ c ≠ '[' ∧ c ≠ '\x7b')
    (hclose : c ≠ ']') (h : ∀ rest, Ends rest → scanScalar (c :: cs ++ rest) = (draft, some rest)) :
    Scans (c :: cs) draft where
  start := ⟨c, cs, rfl, hc.1, hclose⟩
  scan := by
    intro fuel rest hfuel hrest
    simp only [List.length_cons] at hfuel
    obtain ⟨fuel, rfl⟩ := Nat.exists_eq_add_one_of_ne_zero (n := fuel) (by omega)
    rw [List.cons_append, scanValue_cons hc]
    exact h rest hrest

/-- A number that is scanned alone is scanned in front of anything that cannot belong to it. -/
theorem Scans.of_number {v : Except Flaw Number} {complete : Bool}
    (h : scanScalar cs = (.number v complete, some [])) : Scans cs (.number v complete) := by
  cases cs with
  | nil => cases h
  | cons c cs =>
    have hstart : (isBlank c = false ∧ c ≠ '[' ∧ c ≠ '\x7b') ∧ c ≠ ']' := by
      rcases head_of_scanScalar h with rfl | hdigit
      · decide
      · have hplain : Plain [c] := plain_of_isDigit (by simpa using hdigit)
        refine ⟨hplain c List.mem_cons_self, ?_⟩
        rintro rfl
        exact absurd hdigit (by decide)
    exact .of_scalar hstart.1 hstart.2 fun rest hrest => scanScalar_append h hrest

theorem scans_null : Scans "null".toList .null :=
  .of_scalar (c := 'n') (by decide) (by decide) fun _ _ => rfl

theorem scans_bool (b : Bool) : Scans (if b then "true" else "false").toList (.bool b) := by
  cases b with
  | false => exact .of_scalar (c := 'f') (by decide) (by decide) fun _ _ => rfl
  | true => exact .of_scalar (c := 't') (by decide) (by decide) fun _ _ => rfl

/-- The text of an integer is scanned as a whole, even if its value does not fit. -/
theorem scans_int (i : Int) : Scans (toString i).toList (Json.int i).draft := by
  obtain ⟨v, hv⟩ := scanScalar_toString i
  have hdraft : (Json.int i).draft = .number v true := by
    show (scanScalar (toString i).toList).1 = _
    rw [hv]
  rw [hdraft]
  exact .of_number hv

theorem scans_float {x : Float} (h : ReadsBack x) :
    Scans (Json.float x).compact.toList (Json.float x).draft := by
  obtain ⟨v, complete, hv, -⟩ := h.scanScalar
  have hdraft : (Json.float x).draft = .number (.ok v) complete := by
    show (scanScalar (Json.float x).compact.toList).1 = _
    rw [hv]
  rw [hdraft]
  exact .of_number hv

theorem scans_str (s : String) : Scans (quote s).toList (.string { text := .ok s }) := by
  rw [toList_quote]
  refine .of_scalar (by decide) (by decide) fun rest _ => ?_
  rw [List.cons_append, List.append_assoc, scanScalar, List.singleton_append, scanString_quote]
  rfl

theorem scans_arr_nil : Scans ['[', ']'] (.array [] .closed) where
  start := ⟨'[', _, rfl, by decide⟩
  scan := by
    intro fuel rest hfuel _
    simp only [List.length_cons] at hfuel
    obtain ⟨fuel, rfl⟩ := Nat.exists_eq_add_one_of_ne_zero (n := fuel) (by omega)
    rfl

theorem scans_obj_nil : Scans ['\x7b', '\x7d'] (.object [] .closed) where
  start := ⟨'\x7b', _, rfl, by decide⟩
  scan := by
    intro fuel rest hfuel _
    simp only [List.length_cons] at hfuel
    obtain ⟨fuel, rfl⟩ := Nat.exists_eq_add_one_of_ne_zero (n := fuel) (by omega)
    rfl

/-- The text of items, without the brackets around them. -/
def itemsText (style : Style) (depth : Nat) : List Json → List Char
  | [] => []
  | x :: xs => (renderAt style depth x).toList ++ (renderItems style depth xs).toList

/-- The text of entries, without the brackets around them. -/
def entriesText (style : Style) (depth : Nat) : List (String × Json) → List Char
  | [] => []
  | (k, x) :: xs => (quote k).toList ++ (style.colon.toList ++ ((renderAt style depth x).toList ++
      (renderEntries style depth xs).toList))

/-- An array is its items between brackets, with line breaks on the inside. -/
theorem toList_renderAt_arr (x : Json) (xs : List Json) :
    (renderAt style depth (.arr (x :: xs))).toList = '[' :: ((style.lineBreak (depth + 1)).toList ++
      (itemsText style (depth + 1) (x :: xs) ++ ((style.lineBreak depth).toList ++ [']']))) := by
  simp [renderAt, itemsText]

/-- All but the first of the items have a comma in front. -/
theorem toList_renderItems (x : Json) (xs : List Json) :
    (renderItems style depth (x :: xs)).toList =
      ',' :: ((style.lineBreak depth).toList ++ itemsText style depth (x :: xs)) := by
  simp [renderItems, itemsText]

/-- An object is its entries between braces, with line breaks on the inside. -/
theorem toList_renderAt_obj (e : String × Json) (es : List (String × Json)) :
    (renderAt style depth (.obj (e :: es))).toList =
      '\x7b' :: ((style.lineBreak (depth + 1)).toList ++
      (entriesText style (depth + 1) (e :: es) ++ ((style.lineBreak depth).toList ++ ['\x7d']))) := by
  simp [renderAt, entriesText]

/-- All but the first of the entries have a comma in front. -/
theorem toList_renderEntries (e : String × Json) (es : List (String × Json)) :
    (renderEntries style depth (e :: es)).toList =
      ',' :: ((style.lineBreak depth).toList ++ entriesText style depth (e :: es)) := by
  simp [renderEntries, entriesText]

mutual

/-- A value is read from its text. -/
theorem scans_renderAt (style : Style) (depth : Nat) : (j : Json) → (∀ x ∈ j.floats, ReadsBack x) →
    Scans (renderAt style depth j).toList j.draft
  | .null, _ => scans_null
  | .bool b, _ => scans_bool b
  | .int i, _ => scans_int i
  | .float x, h => scans_float (h x List.mem_cons_self)
  | .str s, _ => scans_str s
  | .arr [], _ => by
    rw [renderAt, draft, draftItems]
    exact scans_arr_nil
  -- inside of the brackets the items stand one level deeper
  | .arr (x :: xs), h => by
    rw [toList_renderAt_arr]
    exact (scansItems_itemsText style (depth + 1) (x :: xs) h (List.cons_ne_nil _ _)).arr
      (isBlank_lineBreak style (depth + 1)) (isBlank_lineBreak style depth)
  | .obj [], _ => by
    rw [renderAt, draft, draftEntries]
    exact scans_obj_nil
  | .obj (e :: es), h => by
    rw [toList_renderAt_obj]
    exact (scansEntries_entriesText style (depth + 1) (e :: es) h (List.cons_ne_nil _ _)).obj
      (isBlank_lineBreak style (depth + 1)) (isBlank_lineBreak style depth)

/-- The text of several items is scanned as their drafts. -/
theorem scansItems_itemsText (style : Style) (depth : Nat) : (items : List Json) →
    (∀ x ∈ floatsItems items, ReadsBack x) → items ≠ [] →
    ScansItems (itemsText style depth items) (draftItems items)
  | [], _, hne => absurd rfl hne
  | [x], h, _ => by
    have hx := scans_renderAt style depth x fun y hy => h y (List.mem_append_left _ hy)
    simpa [itemsText, renderItems, draftItems] using hx.items
  | x :: y :: ys, h, _ => by
    have hx := scans_renderAt style depth x fun z hz => h z (List.mem_append_left _ hz)
    have hys := scansItems_itemsText style depth (y :: ys)
      (fun z hz => h z (List.mem_append_right _ hz)) (List.cons_ne_nil _ _)
    rw [itemsText, toList_renderItems]
    exact .cons hx hys (isBlank_lineBreak style depth)

/-- The text of several entries is scanned as their drafts. -/
theorem scansEntries_entriesText (style : Style) (depth : Nat) : (entries : List (String × Json)) →
    (∀ x ∈ floatsEntries entries, ReadsBack x) → entries ≠ [] →
    ScansEntries (entriesText style depth entries) (draftEntries entries)
  | [], _, hne => absurd rfl hne
  | [(k, x)], h, _ => by
    obtain ⟨blanks, hcolon, hblanks⟩ := colon_eq style
    have hx := scans_renderAt style depth x fun y hy => h y (List.mem_append_left _ hy)
    simpa [entriesText, renderEntries, draftEntries, hcolon] using hx.entries k hblanks
  | (k, x) :: e :: es, h, _ => by
    obtain ⟨blanks, hcolon, hblanks⟩ := colon_eq style
    have hx := scans_renderAt style depth x fun y hy => h y (List.mem_append_left _ hy)
    have hes := scansEntries_entriesText style depth (e :: es)
      (fun z hz => h z (List.mem_append_right _ hz)) (List.cons_ne_nil _ _)
    rw [entriesText, toList_renderEntries, hcolon]
    exact .cons hx hes k hblanks (isBlank_lineBreak style depth)

end

/-- A value is read from its text, in either layout, and blanks may follow. -/
theorem scan_render (style : Style) {j : Json} (h : ∀ x ∈ j.floats, ReadsBack x) {blanks : List Char}
    (hblanks : ∀ c ∈ blanks, isBlank c = true) :
    Draft.scan ((j.render style).toList ++ blanks) = (j.draft, some blanks) := by
  have hends : Ends blanks := List.append_nil blanks ▸ ends_blanks hblanks ends_nil
  refine (scans_renderAt style 0 j h).scan (2 * _ + 2) blanks ?_ hends
  rw [List.length_append]
  show 2 * (j.render style).toList.length ≤ _
  omega

end FieldPromotion.Json
