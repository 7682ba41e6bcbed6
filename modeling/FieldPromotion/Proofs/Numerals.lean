import FieldPromotion.Json.Decode
import FieldPromotion.Json.Value
import Mathlib

/-!
# Numbers in a JSON text

A number is read up to the first character that cannot belong to it. So it is read alike wherever it
stands, as long as something else follows. The text of an integer of 64 bits stands for that integer;
about the text of a double nothing is said here but that it has no blanks in it.
-/

namespace FieldPromotion.Json

variable {c : Char} {cs rest r : List Char}

/-! ## §1 Where a number ends -/

/-- What may stand after a number without becoming a part of it. -/
def Ends (rest : List Char) : Prop :=
  ∀ c ∈ rest.head?, c.isDigit = false ∧ c ≠ '.' ∧ c ≠ 'e' ∧ c ≠ 'E'

theorem ends_nil : Ends [] := nofun

/-- A number ends before anything but a digit, a point, or the mark of an exponent. -/
theorem ends_cons : Ends (c :: cs) ↔ c.isDigit = false ∧ c ≠ '.' ∧ c ≠ 'e' ∧ c ≠ 'E' := by
  simp [Ends]

theorem suffix_digits (cs : List Char) : (digits cs).2 <:+ cs :=
  List.dropWhile_suffix _

/-- What ends a number does not add to its digits. -/
theorem digits_append (h : Ends rest) (cs : List Char) :
    digits (cs ++ rest) = ((digits cs).1, (digits cs).2 ++ rest) := by
  induction cs with
  | nil =>
    cases rest with
    | nil => rfl
    | cons c rest => simp [digits, (ends_cons.mp h).1]
  | cons c cs ih =>
    by_cases hc : c.isDigit
    · simp only [digits, Prod.mk.injEq] at ih
      simp [digits, hc, ih]
    · simp [digits, hc]

/-- Digits that have to be there. -/
def someDigits {α : Type} (f : List Nat → α) (cs : List Char) : Except Flaw (α × List Char) :=
  match digits cs with
  | ([], rest) => .error (flawAt rest)
  | (ds, rest) => .ok (f ds, rest)

/-- At least one digit has to be there. -/
theorem someDigits_eq_ok {α : Type} {f : List Nat → α} {a : α} :
    someDigits f cs = .ok (a, r) ↔ (digits cs).1 ≠ [] ∧ f (digits cs).1 = a ∧ (digits cs).2 = r := by
  unfold someDigits
  split
  · simp [*]
  · rename_i ds rest hne heq
    simpa [heq] using fun _ _ => hne

/-- The scanner takes `a` off the front of a text and leaves `r`. What follows the text does not matter,
as long as it ends a number. -/
structure Takes {α : Type} (scan : List Char → Except Flaw (α × List Char)) (cs : List Char) (a : α)
    (r : List Char) : Prop where
  suffix : r <:+ cs
  append : ∀ rest, Ends rest → scan (cs ++ rest) = .ok (a, r ++ rest)

/-- A mark decides what is scanned after it. -/
theorem Takes.mark {α : Type} {scan scan' : List Char → Except Flaw (α × List Char)} {a : α}
    (h : Takes scan cs a r) (hmark : ∀ cs, scan' (c :: cs) = scan cs) : Takes scan' (c :: cs) a r where
  suffix := h.suffix.trans (List.suffix_cons _ _)
  append rest hrest := (hmark _).trans (h.append rest hrest)

/-- Without a mark nothing is taken; a mark does not end a number, so none comes from what follows. -/
theorem Takes.nothing {α : Type} {scan : List Char → Except Flaw (α × List Char)} {a : α}
    {isMark : Char → Prop} (hscan : ∀ cs, (∀ c ∈ cs.head?, ¬ isMark c) → scan cs = .ok (a, cs))
    (hends : ∀ rest, Ends rest → ∀ c ∈ rest.head?, ¬ isMark c) (hcs : ∀ c ∈ cs.head?, ¬ isMark c) :
    Takes scan cs a cs where
  suffix := List.suffix_refl cs
  append rest hrest := by
    apply hscan
    cases cs with
    | nil => exact hends rest hrest
    | cons c cs => exact hcs

theorem takes_someDigits {α : Type} {f : List Nat → α} {a : α} (h : someDigits f cs = .ok (a, r)) :
    Takes (someDigits f) cs a r := by
  obtain ⟨hne, rfl, rfl⟩ := someDigits_eq_ok.mp h
  refine ⟨suffix_digits cs, fun rest hrest => ?_⟩
  rw [someDigits_eq_ok, digits_append hrest]
  exact ⟨hne, rfl, rfl⟩

/-- The fraction is read as far as it goes, and a number that ends there does not change it. -/
theorem takes_scanFraction {f : Option (List Nat)} (h : scanFraction cs = .ok (f, r)) :
    Takes scanFraction cs f r := by
  have hnone : ∀ cs, (∀ c ∈ cs.head?, ¬ c = '.') → scanFraction cs = .ok (none, cs) := by
    intro cs hcs
    unfold scanFraction
    split
    · exact absurd rfl (hcs '.' rfl)
    · rfl
  by_cases hdot : cs.head? = some '.'
  · obtain ⟨cs, rfl⟩ := List.head?_eq_some_iff.mp hdot
    exact (takes_someDigits h).mark fun _ => rfl
  · have hcs : ∀ c ∈ cs.head?, ¬ c = '.' := fun c hc heq => hdot (heq ▸ hc)
    rw [hnone cs hcs] at h
    cases h
    exact .nothing hnone (fun rest hrest c hc => (hrest c hc).2.1) hcs

/-- The exponent after its mark. -/
def scanPower : List Char → Except Flaw (Option (Bool × List Nat) × List Char)
  | '+' :: cs => someDigits (fun ds => some (false, ds)) cs
  | '-' :: cs => someDigits (fun ds => some (true, ds)) cs
  | cs => someDigits (fun ds => some (false, ds)) cs

theorem takes_scanPower {e : Option (Bool × List Nat)} (h : scanPower cs = .ok (e, r)) :
    Takes scanPower cs e r := by
  unfold scanPower at h
  split at h
  · exact (takes_someDigits h).mark fun _ => rfl
  · exact (takes_someDigits h).mark fun _ => rfl
  · rename_i hplus hminus
    have hdigits := takes_someDigits h
    refine ⟨hdigits.suffix, fun rest hrest => ?_⟩
    rw [← hdigits.append rest hrest]
    -- there is a digit, so no sign comes from what follows
    cases cs with
    | nil => cases h
    | cons c cs =>
      rw [List.cons_append, scanPower]
      · rintro _ heq
        cases heq
        exact hplus _ rfl
      · rintro _ heq
        cases heq
        exact hminus _ rfl

/-- The same is true of the exponent. -/
theorem takes_scanExponent {e : Option (Bool × List Nat)} (h : scanExponent cs = .ok (e, r)) :
    Takes scanExponent cs e r := by
  -- without the letter there is no exponent, and nothing is read
  have hnone : ∀ cs, (∀ c ∈ cs.head?, ¬ (c = 'e' ∨ c = 'E')) → scanExponent cs = .ok (none, cs) := by
    intro cs hcs
    unfold scanExponent
    split
    · exact absurd (.inl rfl) (hcs 'e' rfl)
    · exact absurd (.inr rfl) (hcs 'E' rfl)
    · rfl
  by_cases hmark : ∃ c ∈ cs.head?, c = 'e' ∨ c = 'E'
  · obtain ⟨c, hc, rfl | rfl⟩ := hmark
    · obtain ⟨cs, rfl⟩ := List.head?_eq_some_iff.mp hc
      exact (takes_scanPower h).mark fun _ => rfl
    · obtain ⟨cs, rfl⟩ := List.head?_eq_some_iff.mp hc
      exact (takes_scanPower h).mark fun _ => rfl
  · have hcs : ∀ c ∈ cs.head?, ¬ (c = 'e' ∨ c = 'E') := fun c hc heq => hmark ⟨c, hc, heq⟩
    rw [hnone cs hcs] at h
    cases h
    refine .nothing hnone (fun rest hrest c hc => ?_) hcs
    exact not_or.mpr (hrest c hc).2.2

/-- What makes a numeral. -/
theorem scanNumeral_eq_ok {negative : Bool} {n : Numeral} :
    scanNumeral negative cs = .ok (n, r) ↔
      (digits cs).1 ≠ [] ∧ (∀ d ds, (digits cs).1 ≠ 0 :: d :: ds) ∧
      ∃ f after e, scanFraction (digits cs).2 = .ok (f, after) ∧ scanExponent after = .ok (e, r) ∧
        n = { negative, whole := (digits cs).1, fraction := f.getD [], exponent := e,
              hasPoint := f.isSome } := by
  unfold scanNumeral
  cases digits cs with
  | mk whole after =>
    simp only
    split
    · simp
    · simp
    · rename_i hnil hzero
      -- the three parts are read one after the other, and each of them may fail
      cases hfraction : scanFraction after with
      | error flaw => simp [bind, Except.bind]
      | ok f =>
        obtain ⟨f, after'⟩ := f
        cases hexponent : scanExponent after' with
        | error flaw => simp [hexponent, bind, Except.bind]
        | ok e =>
          obtain ⟨e, r'⟩ := e
          simp only [bind, Except.bind, pure, Except.pure, hexponent, Except.ok.injEq, Prod.mk.injEq]
          constructor
          · rintro ⟨rfl, rfl⟩
            exact ⟨hnil, hzero, f, after', e, ⟨rfl, rfl⟩, hexponent, rfl⟩
          · rintro ⟨-, -, f', _, e', ⟨rfl, rfl⟩, he', rfl⟩
            rw [hexponent] at he'
            cases he'
            exact ⟨rfl, rfl⟩

/-- And of the numeral as a whole. -/
theorem takes_scanNumeral {negative : Bool} {n : Numeral} (h : scanNumeral negative cs = .ok (n, r)) :
    Takes (scanNumeral negative) cs n r := by
  obtain ⟨hne, hzero, f, after, e, hfraction, hexponent, rfl⟩ := scanNumeral_eq_ok.mp h
  have hf := takes_scanFraction hfraction
  have he := takes_scanExponent hexponent
  refine ⟨he.suffix.trans (hf.suffix.trans (suffix_digits cs)), fun rest hrest => ?_⟩
  rw [scanNumeral_eq_ok, digits_append hrest]
  exact ⟨hne, hzero, f, after ++ rest, e, hf.append rest hrest, he.append rest hrest, rfl⟩

/-- A number that is read up to some place is read up to that place in any longer text in which the
number ends there. -/
theorem scanNumber_append {negative : Bool} {draft : Draft}
    (h : scanNumber negative cs = (draft, some r)) :
    r <:+ cs ∧ ∀ rest, Ends rest → scanNumber negative (cs ++ rest) = (draft, some (r ++ rest)) := by
  unfold scanNumber at h
  split at h
  · cases h
  · rename_i n after hnumeral
    have hn := takes_scanNumeral hnumeral
    split at h <;>
    · rename_i hvalue
      cases h
      refine ⟨hn.suffix, fun rest hrest => ?_⟩
      simp only [scanNumber, hn.append rest hrest, hvalue]

/-! ## §2 Integers -/

/-- The significand of digits that fit. -/
theorem gather_digits {init : Nat} (h : Nat.ofDigitChars 10 cs init < Nat.pow 2 64) :
    Numeral.gather init (cs.map fun c => c.toNat - 48) = (Nat.ofDigitChars 10 cs init, []) := by
  induction cs generalizing init with
  | nil => rfl
  | cons c cs ih =>
    rw [Nat.ofDigitChars_cons, Nat.mul_comm 10] at h ⊢
    -- more digits do not make it smaller
    have hle : init * 10 + (c.toNat - 48) ≤
        Nat.ofDigitChars 10 cs (init * 10 + (c.toNat - 48)) := by
      rw [Nat.ofDigitChars_eq_ofDigitChars_zero]
      exact Nat.le_add_right_of_le (Nat.le_mul_of_pos_left _ (Nat.pow_pos (by decide)))
    rw [List.map_cons, Numeral.gather, if_pos (Nat.lt_of_le_of_lt hle h)]
    exact ih h

theorem digitChar_ne_zero {n : Nat} (h : n < 10) (hn : n ≠ 0) : n.digitChar ≠ '0' := by
  interval_cases n <;> first | exact absurd rfl hn | decide

/-- The first digit of a number is not zero. -/
theorem head_toDigits {n : Nat} (hn : 0 < n) : (Nat.toDigits 10 n).head? ≠ some '0' := by
  induction n using Nat.strong_induction_on with
  | _ n ih =>
    by_cases hlt : n < 10
    · rw [Nat.toDigits_of_lt_base hlt]
      exact fun h => digitChar_ne_zero hlt hn.ne' (Option.some.inj h)
    · rw [Nat.toDigits_of_base_le (by decide) (Nat.not_lt.mp hlt), List.head?_append,
        List.head?_eq_some_head Nat.toDigits_ne_nil, Option.some_or,
        ← List.head?_eq_some_head Nat.toDigits_ne_nil]
      exact ih (n / 10) (by omega) (by omega)

/-- A number is written with digits only. -/
theorem digits_toDigits (n : Nat) :
    digits (Nat.toDigits 10 n) = ((Nat.toDigits 10 n).map fun c => c.toNat - 48, []) := by
  have hall : ∀ c ∈ Nat.toDigits 10 n, c.isDigit = true := fun c hc =>
    Nat.isDigit_of_mem_toDigits (by decide) (by decide) hc
  rw [digits, List.takeWhile_eq_self_iff.mpr hall, List.dropWhile_eq_nil_iff.mpr hall]

/-- The digits of a number make a numeral. -/
theorem scanNumeral_toDigits (negative : Bool) (n : Nat) :
    scanNumeral negative (Nat.toDigits 10 n) =
      .ok ({ negative, whole := (Nat.toDigits 10 n).map fun c => c.toNat - 48 }, []) := by
  rw [scanNumeral_eq_ok, digits_toDigits]
  refine ⟨?_, ?_, none, [], none, rfl, rfl, rfl⟩
  · simp
  · intro d ds heq
    obtain ⟨c, cs, hcs, hc, -⟩ := List.map_eq_cons_iff.mp heq
    rcases Nat.eq_zero_or_pos n with rfl | hn
    · cases heq
    · -- the only digit of value zero is `0`
      have hdigit : c.isDigit = true :=
        Nat.isDigit_of_mem_toDigits (b := 10) (n := n) (by decide) (by decide) (by simp [hcs])
      have hzero : c = '0' := by
        have hle : 48 ≤ c.toNat := (Char.isDigit_iff_toNat.mp hdigit).1
        exact Char.toNat_inj.mp (show c.toNat = 48 by omega)
      apply head_toDigits hn
      rw [hcs, hzero]
      rfl

/-- A natural number is well spelt, whatever its size. -/
theorem scanNumber_toDigits (negative : Bool) (n : Nat) :
    ∃ v, scanNumber negative (Nat.toDigits 10 n) = (.number v true, some []) := by
  unfold scanNumber
  rw [scanNumeral_toDigits]
  simp only
  split
  · exact ⟨_, rfl⟩
  · exact ⟨_, rfl⟩

/-- It is read back if it fits into 64 bits. -/
theorem scanNumber_toDigits_nonneg {n : Nat} (h : n < Nat.pow 2 64) :
    scanNumber false (Nat.toDigits 10 n) = (.number (.ok (.int n)) true, some []) := by
  have hgather : Numeral.gather 0 ((Nat.toDigits 10 n).map fun c => c.toNat - 48) = (n, []) := by
    rw [gather_digits, Nat.ofDigitChars_ten_toDigits]
    rwa [Nat.ofDigitChars_ten_toDigits]
  simp [scanNumber, scanNumeral_toDigits, Numeral.value?, hgather]

/-- So is a negative number, down to the smallest one of 64 bits. -/
theorem scanNumber_toDigits_neg {n : Nat} (hpos : 0 < n) (h : n ≤ Nat.pow 2 63) :
    scanNumber true (Nat.toDigits 10 n) = (.number (.ok (.int (-n))) true, some []) := by
  have hgather : Numeral.gather 0 ((Nat.toDigits 10 n).map fun c => c.toNat - 48) = (n, []) := by
    rw [gather_digits, Nat.ofDigitChars_ten_toDigits]
    rw [Nat.ofDigitChars_ten_toDigits]
    exact Nat.lt_of_le_of_lt h (by decide)
  have hle : ¬ Nat.pow 2 63 < n := Nat.not_lt.mpr h
  simp [scanNumber, scanNumeral_toDigits, Numeral.value?, hgather, hpos.ne', hle]

/-! ## §3 Numbers among other values -/

theorem scanScalar_digit (h : c.isDigit = true) :
    scanScalar (c :: cs) = scanNumber false (c :: cs) := by
  have hne : ∀ x : Char, x.isDigit = false → c ≠ x := by
    rintro x hx rfl
    rw [h] at hx
    cases hx
  rw [scanScalar, if_pos h] <;> exact hne _ (by decide)

/-- A number that is read to the end of a text is read alike when something else follows. -/
theorem scanScalar_append {v : Except Flaw Number} {complete : Bool}
    (h : scanScalar cs = (.number v complete, some [])) (hrest : Ends rest) :
    scanScalar (cs ++ rest) = (.number v complete, some rest) := by
  unfold scanScalar at h
  -- the first character says which kind of value it is, and only two of the kinds are numbers
  split at h
  · cases h
  · split at h <;> cases h
  · split at h <;> cases h
  · split at h <;> cases h
  · cases h
  · exact (scanNumber_append h).2 rest hrest
  · split at h
    · rename_i hdigit
      rw [List.cons_append, scanScalar_digit hdigit]
      exact (scanNumber_append h).2 rest hrest
    · cases h

/-- Numbers start with a sign or a digit. -/
theorem head_of_scanScalar {v : Except Flaw Number} {complete : Bool} {after : Option (List Char)}
    (h : scanScalar (c :: cs) = (.number v complete, after)) : c = '-' ∨ c.isDigit = true := by
  unfold scanScalar at h
  split at h
  · cases h
  · split at h <;> cases h
  · split at h <;> cases h
  · split at h <;> cases h
  · cases h
  · rename_i heq
    cases heq
    exact .inl rfl
  · rename_i heq
    cases heq
    split at h
    · exact .inr (by assumption)
    · cases h

/-- What is left after a number is the end of the text. -/
theorem suffix_of_scanScalar {v : Except Flaw Number} {complete : Bool}
    (h : scanScalar cs = (.number v complete, some r)) : r <:+ cs := by
  cases cs with
  | nil => cases h
  | cons c cs =>
    rcases head_of_scanScalar h with rfl | hdigit
    · exact (scanNumber_append h).1.trans (List.suffix_cons _ _)
    · rw [scanScalar_digit hdigit] at h
      exact (scanNumber_append h).1

/-- The text of an integer. -/
theorem toList_toString (i : Int) : (toString i).toList =
    if 0 ≤ i then Nat.toDigits 10 i.toNat else '-' :: Nat.toDigits 10 (-i).toNat := by
  rw [Int.toString_eq_repr, Int.repr_eq_if]
  split <;> simp [Nat.repr_eq_ofList_toDigits]

theorem scanScalar_toDigits (n : Nat) :
    scanScalar (Nat.toDigits 10 n) = scanNumber false (Nat.toDigits 10 n) := by
  cases hcs : Nat.toDigits 10 n with
  | nil => exact absurd hcs Nat.toDigits_ne_nil
  | cons c cs =>
    apply scanScalar_digit
    exact Nat.isDigit_of_mem_toDigits (b := 10) (n := n) (by decide) (by decide) (by simp [hcs])

/-- The text of an integer is read to its end. -/
theorem scanScalar_toString (i : Int) :
    ∃ v, scanScalar (toString i).toList = (.number v true, some []) := by
  rw [toList_toString]
  split
  · rw [scanScalar_toDigits]
    exact scanNumber_toDigits false _
  · exact scanNumber_toDigits true _

/-- An integer of 64 bits is read back. -/
theorem scanScalar_int {i : Int} (hlow : -9223372036854775808 ≤ i) (hhigh : i ≤ 18446744073709551615) :
    scanScalar (toString i).toList = (.number (.ok (.int i)) true, some []) := by
  rw [toList_toString]
  split
  · rename_i hpos
    have hlt : i.toNat < Nat.pow 2 64 := by
      show i.toNat < 18446744073709551616
      omega
    rw [scanScalar_toDigits, scanNumber_toDigits_nonneg hlt, Int.toNat_of_nonneg hpos]
  · rename_i hneg
    have hle : (-i).toNat ≤ Nat.pow 2 63 := by
      show (-i).toNat ≤ 9223372036854775808
      omega
    show scanNumber true _ = _
    rw [scanNumber_toDigits_neg (by omega) hle, Int.toNat_of_nonneg (by omega), Int.neg_neg]

/-! ## §4 Doubles -/

/-- A double is read back from its text. -/
def ReadsBack (x : Float) : Prop :=
  Decoder.float.read (Json.float x).compact = .ok x

instance (x : Float) : Decidable (ReadsBack x) :=
  decidable_of_iff ((Decoder.float.read (Json.float x).compact).toOption = some x) (by
    unfold ReadsBack
    cases Decoder.float.read (Json.float x).compact <;> simp [Except.toOption])

/-- There is no blank and no opening bracket in a text. -/
def Plain (cs : List Char) : Prop :=
  ∀ c ∈ cs, isBlank c = false ∧ c ≠ '[' ∧ c ≠ '\x7b'

theorem plain_append : Plain (cs ++ rest) ↔ Plain cs ∧ Plain rest :=
  List.forall_mem_append

/-- Digits are plain. -/
theorem plain_of_isDigit (h : ∀ c ∈ cs, c.isDigit = true) : Plain cs := by
  intro c hc
  obtain ⟨hle, hge⟩ : 48 ≤ c.toNat ∧ c.toNat ≤ 57 := Char.isDigit_iff_toNat.mp (h c hc)
  have hne : ∀ x : Char, x.toNat < 48 ∨ 57 < x.toNat → c ≠ x := by
    rintro x hx rfl
    omega
  simp [isBlank, hne]

theorem plain_toDigits (n : Nat) : Plain (Nat.toDigits 10 n) :=
  plain_of_isDigit fun _ h => Nat.isDigit_of_mem_toDigits (by decide) (by decide) h

theorem plain_toString (i : Int) : Plain (toString i).toList := by
  rw [toList_toString]
  split
  · exact plain_toDigits _
  · exact List.forall_mem_cons.mpr ⟨by decide, plain_toDigits _⟩

theorem plain_zeros (n : Int) : Plain (Decimal.Layout.zeros n).toList := by
  rw [Decimal.Layout.zeros, String.toList_ofList]
  intro c hc
  rw [List.eq_of_mem_replicate hc]
  decide

/-- A decimal with a point is plain. -/
theorem plain_fixedText (h : Plain cs) (point : Int) :
    Plain (Decimal.Layout.fixedText cs point).toList := by
  unfold Decimal.Layout.fixedText
  split
  · simp only [String.toList_append, String.toList_ofList, plain_append]
    exact ⟨⟨by simp [Plain, isBlank], plain_zeros _⟩, h⟩
  · split
    · simp only [String.toList_append, String.toList_ofList, plain_append]
      exact ⟨⟨h, plain_zeros _⟩, by simp [Plain, isBlank]⟩
    · simp only [String.toList_append, String.toList_ofList, plain_append]
      exact ⟨⟨fun c hc => h c (List.mem_of_mem_take hc), by simp [Plain, isBlank]⟩,
        fun c hc => h c (List.mem_of_mem_drop hc)⟩

/-- A decimal with an exponent is plain. -/
theorem plain_exponentText (h : Plain cs) (plusSign : Bool) (point : Int) :
    Plain (Decimal.Layout.exponentText plusSign cs point).toList := by
  have htake : Plain (cs.take 1) := fun c hc => h c (List.mem_of_mem_take hc)
  have hdrop : Plain (cs.drop 1) := fun c hc => h c (List.mem_of_mem_drop hc)
  simp only [Decimal.Layout.exponentText, String.toList_append, String.toList_ofList, plain_append]
  refine ⟨⟨⟨⟨htake, ?_⟩, by simp [Plain, isBlank]⟩, ?_⟩, plain_toString _⟩
  · split
    · exact nofun
    · simp only [String.toList_append, String.toList_ofList, plain_append]
      exact ⟨by simp [Plain, isBlank], hdrop⟩
  · split <;> simp [Plain, isBlank]

theorem plain_of_text? {layout : Decimal.Layout} {x : Float} {text : String}
    (h : layout.text? x = some text) : Plain text.toList := by
  obtain ⟨v, -, rfl⟩ := Option.map_eq_some_iff.mp h
  rw [String.toList_append, plain_append]
  constructor
  · split <;> simp [Plain, isBlank]
  · unfold Decimal.Layout.decimalText
    split
    · simp [Plain, isBlank]
    · simp only
      split
      · exact plain_fixedText (plain_toDigits _) _
      · exact plain_exponentText (plain_toDigits _) _ _

/-- The text of a double is plain, and so is `null`. -/
theorem plain_text (x : Float) : Plain (Json.float x).compact.toList := by
  show Plain ((Decimal.jsonLayout.text? x).getD "null").toList
  cases htext : Decimal.jsonLayout.text? x with
  | none => simp [Plain, isBlank]
  | some text => exact plain_of_text? htext

theorem plain_sourceText (x : Float) : Plain (Decimal.sourceText x).toList := by
  rw [Decimal.sourceText]
  cases htext : Decimal.sourceLayout.text? x with
  | none =>
    simp only [Option.getD_none, Decimal.nonFiniteText]
    split
    · simp [Plain, isBlank]
    · split <;> simp [Plain, isBlank]
  | some text => exact plain_of_text? htext

theorem skipBlanks_cons (h : isBlank c = false) : skipBlanks (c :: cs) = c :: cs := by
  simp [skipBlanks, h]

/-- Nothing in a plain text is skipped. -/
theorem eq_nil_of_skipBlanks (h : Plain cs) (hnil : skipBlanks cs = []) : cs = [] := by
  cases cs with
  | nil => rfl
  | cons c cs =>
    rw [skipBlanks_cons (h c List.mem_cons_self).1] at hnil
    cases hnil

/-- The first character says that the value is no array or object. -/
theorem scanValue_cons {fuel : Nat} (hc : isBlank c = false ∧ c ≠ '[' ∧ c ≠ '\x7b') :
    scanValue (fuel + 1) (c :: cs) = scanScalar (c :: cs) := by
  rw [scanValue, skipBlanks_cons hc.1]
  split
  · rename_i heq
    cases heq
    exact absurd rfl hc.2.1
  · rename_i heq
    cases heq
    exact absurd rfl hc.2.2
  · rfl

/-- Only numbers are doubles. -/
theorem float_eq_ok {levels : Nat} {draft : Draft} {x : Float}
    (h : Decoder.float levels draft = .ok x) : ∃ v complete, draft = .number (.ok v) complete := by
  unfold Decoder.float at h
  split at h
  · exact ⟨_, _, rfl⟩
  · exact ⟨_, _, rfl⟩
  · unfold expected at h
    split at h <;> cases h

/-- The text of such a double is read to its end, and gives the double. -/
theorem ReadsBack.scanScalar {x : Float} (h : ReadsBack x) :
    ∃ v complete, scanScalar (Json.float x).compact.toList = (.number (.ok v) complete, some []) ∧
      ∀ levels, Decoder.float levels (.number (.ok v) complete) = .ok x := by
  have hplain := plain_text x
  unfold ReadsBack Decoder.read Draft.scan at h
  generalize (Json.float x).compact.toList = cs at h hplain
  cases cs with
  | nil => cases h
  | cons c cs =>
    -- a double is no array or object, so it is scanned as a number
    rw [scanValue_cons (hplain c List.mem_cons_self)] at h
    cases hscalar : Json.scanScalar (c :: cs) with
    | mk draft after =>
      rw [hscalar] at h
      simp only at h
      split at h
      · cases h
      · rename_i y hy
        obtain ⟨v, complete, rfl⟩ := float_eq_ok hy
        cases after with
        | none => cases h
        | some r =>
          simp only at h
          split at h
          · rename_i hr
            cases h
            -- the text has no blanks, so that nothing but blanks is left means that nothing is
            -- left
            have hnil : r = [] := eq_nil_of_skipBlanks
              (fun c hc => hplain c ((suffix_of_scanScalar hscalar).subset hc))
              (List.isEmpty_iff.mp hr)
            subst hnil
            exact ⟨v, complete, rfl, fun levels => by cases v <;> exact hy⟩
          · cases h

end FieldPromotion.Json
