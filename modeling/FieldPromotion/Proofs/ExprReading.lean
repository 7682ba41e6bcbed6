import FieldPromotion.Proofs.Tokens
import FieldPromotion.Tree.Build

/-!
# Reading an expression

An expression is printed without parentheses around its parts. So an assignment that is assigned to,
called, or asked for a property cannot be told from one whose value is assigned, called or asked for
the property instead: everything up to an equals sign is read as its target. Nothing else is lost. A
machine that takes the tokens from left to right rebuilds the expression in that form, and two
expressions have one text exactly if they agree in it.
-/

namespace FieldPromotion

namespace Expr

/-! ## §1 Assignments grouped to the right -/

/-- A value that is assigned to several targets, `t₁ = (t₂ = (… = value))`. -/
def grouped (targets : List Expr) (value : Expr) : Expr :=
  targets.foldr (fun t v => .assign t v {}) value

mutual

/-- What stands to the left of each equals sign of an expression, and what stands after the last one.
Equals signs inside of argument lists do not count. -/
def spine : Expr → List Expr × Expr
  | .member object property span => (object.spine.1, .member object.spine.2 property span)
  | .call callee arguments span =>
    (callee.spine.1, .call callee.spine.2 (regroupAll arguments) span)
  | .assign target value _ =>
    (target.spine.1 ++ target.spine.2 :: value.spine.1, value.spine.2)
  | e => ([], e)

def regroupAll : List Expr → List Expr
  | [] => []
  | e :: es => grouped e.spine.1 e.spine.2 :: regroupAll es

end

/-- An expression with all assignments grouped to the right. -/
def regroup (e : Expr) : Expr :=
  grouped e.spine.1 e.spine.2

def isAssign : Expr → Bool
  | .assign _ _ _ => true
  | _ => false

mutual

/-- No assignment is assigned to, called, or asked for a property. -/
def isRightGrouped : Expr → Bool
  | .member object _ _ => !object.isAssign && object.isRightGrouped
  | .call callee arguments _ =>
    !callee.isAssign && callee.isRightGrouped && isRightGroupedAll arguments
  | .assign target value _ =>
    !target.isAssign && target.isRightGrouped && value.isRightGrouped
  | _ => true

def isRightGroupedAll : List Expr → Bool
  | [] => true
  | e :: es => e.isRightGrouped && isRightGroupedAll es

end

/-- A group of assignments is taken apart in the same way with and without positions. -/
theorem bare_grouped (ts : List Expr) (e : Expr) :
    (grouped ts e).bare = grouped (ts.map bare) e.bare := by
  induction ts with
  | nil => rfl
  | cons t ts ih =>
    rw [grouped, List.foldr_cons, bare]
    exact congrArg (fun v => assign t.bare v {}) ih

mutual

/-- An operand that is grouped to the right has no equals sign outside of argument lists. -/
theorem spine_of_isRightGrouped : (e : Expr) → e.isRightGrouped = true → e.isAssign = false →
    e.spine.1 = [] ∧ e.spine.2.bare = e.bare
  | .int _ _, _, _ | .float _ _, _, _ | .string _ _, _, _ | .bool _ _, _, _ | .null _, _, _
  | .ident _, _, _ | .thisRef _, _, _ | .superRef _, _, _ => ⟨rfl, rfl⟩
  | .member object property _, h, _ => by
    simp only [isRightGrouped, Bool.and_eq_true, Bool.not_eq_true'] at h
    obtain ⟨hnil, hbare⟩ := spine_of_isRightGrouped object h.2 h.1
    simp [spine, bare, hnil, hbare]
  | .call callee arguments _, h, _ => by
    simp only [isRightGrouped, Bool.and_eq_true, Bool.not_eq_true'] at h
    obtain ⟨hnil, hbare⟩ := spine_of_isRightGrouped callee h.1.2 h.1.1
    simp [spine, bare, hnil, hbare, bareAll_regroupAll arguments h.2]
  | .assign _ _ _, _, h => by cases h

/-- Regrouping changes nothing but spans when everything is grouped to the right already. -/
theorem bare_regroup : (e : Expr) → e.isRightGrouped = true → e.regroup.bare = e.bare
  | .assign target value _, h => by
    simp only [isRightGrouped, Bool.and_eq_true, Bool.not_eq_true'] at h
    obtain ⟨hnil, hbare⟩ := spine_of_isRightGrouped target h.1.2 h.1.1
    have hvalue := bare_regroup value h.2
    -- the target has no equals sign of its own, so the first one is that of the assignment
    rw [regroup, bare_grouped] at hvalue ⊢
    simp only [spine, hnil, List.nil_append, List.map_cons, bare]
    rw [← hvalue, ← hbare]
    rfl
  | .member object property span, h => by
    obtain ⟨hnil, hbare⟩ := spine_of_isRightGrouped (.member object property span) h rfl
    rw [regroup, hnil]
    exact hbare
  | .call callee arguments span, h => by
    obtain ⟨hnil, hbare⟩ := spine_of_isRightGrouped (.call callee arguments span) h rfl
    rw [regroup, hnil]
    exact hbare
  | .int _ _, _ | .float _ _, _ | .string _ _, _ | .bool _ _, _ | .null _, _ | .ident _, _
  | .thisRef _, _ | .superRef _, _ => rfl

/-- Arguments that are grouped to the right already stay as they are. -/
theorem bareAll_regroupAll : (es : List Expr) → isRightGroupedAll es = true →
    bareAll (regroupAll es) = bareAll es
  | [], _ => rfl
  | e :: es, h => by
    simp only [isRightGroupedAll, Bool.and_eq_true] at h
    rw [regroupAll, bareAll, bareAll, bareAll_regroupAll es h.2]
    exact congrArg (· :: bareAll es) (bare_regroup e h.1)

end

/-! ## §2 Texts of regrouped expressions -/

/-- A group of assignments is written from left to right. -/
theorem print_grouped (ts : List Expr) (e : Expr) :
    (grouped ts e).print = String.join (ts.map fun t => t.print ++ " = ") ++ e.print := by
  induction ts with
  | nil => simp [grouped]
  | cons t ts ih =>
    rw [grouped, List.foldr_cons, print]
    rw [grouped] at ih
    rw [ih]
    simp [String.append_assoc]

mutual

/-- Regrouping does not change the text. -/
theorem print_regroup : (e : Expr) → e.regroup.print = e.print
  | .member object property _ => by
    have hobject := print_regroup object
    rw [regroup, print_grouped] at hobject ⊢
    simp [spine, print, ← hobject, String.append_assoc]
  | .call callee arguments _ => by
    have hcallee := print_regroup callee
    rw [regroup, print_grouped] at hcallee ⊢
    simp [spine, print, ← hcallee, printAll_regroupAll arguments, String.append_assoc]
  | .assign target value _ => by
    -- the targets of the target come before the target itself, and those of the value after it
    have htarget := print_regroup target
    have hvalue := print_regroup value
    rw [regroup, print_grouped] at htarget hvalue ⊢
    simp [spine, print, ← htarget, ← hvalue, String.append_assoc]
  | .int _ _ | .float _ _ | .string _ _ | .bool _ _ | .null _ | .ident _ | .thisRef _
  | .superRef _ => rfl

/-- Grouping does not change the texts of arguments. -/
theorem printAll_regroupAll : (es : List Expr) → printAll (regroupAll es) = printAll es
  | [] => rfl
  | e :: es => by
    rw [regroupAll, printAll, printAll, printAll_regroupAll es]
    exact congrArg (· :: printAll es) (print_regroup e)

end

/-! ## §3 A machine that reads tokens -/

/-- The operand that a word stands for. -/
def ofWord (w : String) : Expr :=
  if w = "this" then .thisRef {}
  else if w = "super" then .superRef {}
  else if w = "null" then .null {}
  else if w = "true" then .bool true {}
  else if w = "false" then .bool false {}
  else .ident { name := w }

/-- A name that is no keyword is an identifier. -/
theorem ofWord_of_isName {w : String} (h : isName w = true) : ofWord w = .ident { name := w } := by
  simp only [isName, keywords, Bool.and_eq_true, Bool.not_eq_true', List.contains_eq_mem,
    decide_eq_false_iff_not, List.mem_cons, List.not_mem_nil, or_false, not_or] at h
  obtain ⟨-, hthis, hsuper, hnull, htrue, hfalse⟩ := h
  simp [ofWord, hthis, hsuper, hnull, htrue, hfalse]

end Expr

/-- A call whose argument list is being read: the targets of the assignments around it, the callee, and
the arguments so far. -/
structure OpenCall where
  targets : List Expr
  callee : Expr
  arguments : List Expr

/-- The state of the machine: the targets and the operand that were read since the last opening
parenthesis or comma, and the calls around, innermost first. -/
structure Reader where
  targets : List Expr := []
  operand : Option Expr := none
  calls : List OpenCall := []

namespace Reader

def push (r : Reader) (e : Expr) : Option Reader :=
  match r.operand with
  | none => some { r with operand := some e }
  | some _ => none

/-- One token is taken. -/
def step (r : Reader) : Token → Option Reader
  | .word w => r.push (.ofWord w)
  | .int value => r.push (.int value {})
  | .float value => r.push (.float value {})
  | .string value => r.push (.string value {})
  | .property name => r.operand.map fun e => { r with operand := some (.member e { name } {}) }
  | .equals => r.operand.map fun e => { r with targets := r.targets ++ [e], operand := none }
  | .opening => r.operand.map fun e => { calls := ⟨r.targets, e, []⟩ :: r.calls }
  | .comma =>
    match r.operand, r.calls with
    | some e, c :: cs =>
      some { calls := { c with arguments := c.arguments ++ [.grouped r.targets e] } :: cs }
    | _, _ => none
  | .closing =>
    match r.operand, r.calls with
    | none, c :: cs => some ⟨c.targets, some (.call c.callee c.arguments {}), cs⟩
    | some e, c :: cs =>
      some ⟨c.targets, some (.call c.callee (c.arguments ++ [.grouped r.targets e]) {}), cs⟩
    | _, [] => none

def run (r : Reader) (ts : List Token) : Option Reader :=
  ts.foldlM step r

theorem run_nil (r : Reader) : r.run [] = some r := rfl

theorem run_cons (r : Reader) (t : Token) (ts : List Token) :
    r.run (t :: ts) = (r.step t).bind fun r => r.run ts := rfl

theorem run_append (r : Reader) (ts us : List Token) :
    r.run (ts ++ us) = (r.run ts).bind fun r => r.run us := by
  simp [run]

mutual

/-- An expression that is read leaves its spine behind. -/
theorem run_tokens : (e : Expr) → e.isReadable = true → (ts : List Expr) → (cs : List OpenCall) →
    (⟨ts, none, cs⟩ : Reader).run e.tokens =
      some ⟨ts ++ e.spine.1.map Expr.bare, some e.spine.2.bare, cs⟩
  | .int _ _, _, ts, cs | .float _ _, _, ts, cs | .string _ _, _, ts, cs | .null _, _, ts, cs
  | .thisRef _, _, ts, cs | .superRef _, _, ts, cs => by
    simp [Expr.tokens, run_cons, run_nil, step, push, Expr.spine, Expr.bare, Expr.ofWord]
  | .bool value _, _, ts, cs => by
    cases value <;>
      simp [Expr.tokens, run_cons, run_nil, step, push, Expr.spine, Expr.bare, Expr.ofWord]
  | .ident id, h, ts, cs => by
    rw [Expr.isReadable] at h
    simp [Expr.tokens, run_cons, run_nil, step, push, Expr.spine, Expr.bare, Ident.bare,
      Expr.ofWord_of_isName h]
  | .member object property _, h, ts, cs => by
    simp only [Expr.isReadable, Bool.and_eq_true] at h
    simp [Expr.tokens, run_append, run_tokens object h.1, run_cons, run_nil, step, Expr.spine,
      Expr.bare, Ident.bare]
  | .call callee [] _, h, ts, cs => by
    simp only [Expr.isReadable, Bool.and_eq_true] at h
    simp [Expr.tokens, run_append, run_tokens callee h.1, run_cons, run_nil, step, Expr.spine,
      Expr.bare, Expr.regroupAll, Expr.bareAll]
  | .call callee (a :: as) _, h, ts, cs => by
    simp only [Expr.isReadable, Expr.isReadableAll, Bool.and_eq_true] at h
    rw [Expr.tokens, run_append, run_tokens callee h.1, Option.bind_some, run_cons, step]
    -- the arguments are read with the call on top
    simp only [Option.map_some, Option.bind_some]
    rw [List.append_assoc, run_append, run_tokens a h.2.1, Option.bind_some,
      run_moreTokens as h.2.2]
    simp [Expr.spine, Expr.bare, Expr.regroupAll, Expr.bareAll, Expr.bare_grouped]
  | .assign target value _, h, ts, cs => by
    simp only [Expr.isReadable, Bool.and_eq_true] at h
    -- at the equals sign the operand so far becomes the last target
    simp [Expr.tokens, run_append, run_tokens target h.1, run_cons, step, run_tokens value h.2,
      Expr.spine]

/-- The last argument so far is completed by what follows, and then the call is closed. -/
theorem run_moreTokens : (as : List Expr) → Expr.isReadableAll as = true → (ts : List Expr) →
    (e : Expr) → (c : OpenCall) → (cs : List OpenCall) →
    (⟨ts, some e, c :: cs⟩ : Reader).run (Expr.moreTokens as ++ [.closing]) =
      some ⟨c.targets, some (.call c.callee (c.arguments ++ Expr.grouped ts e ::
        Expr.bareAll (Expr.regroupAll as)) {}), cs⟩
  | [], _, ts, e, c, cs => by
    simp [Expr.moreTokens, run_cons, run_nil, step, Expr.regroupAll, Expr.bareAll]
  | a :: as, h, ts, e, c, cs => by
    simp only [Expr.isReadableAll, Bool.and_eq_true] at h
    rw [Expr.moreTokens, List.cons_append, run_cons, step]
    simp only [Option.bind_some]
    rw [List.append_assoc, run_append, run_tokens a h.1, Option.bind_some, run_moreTokens as h.2]
    simp [Expr.regroupAll, Expr.bareAll, Expr.bare_grouped]

end

end Reader

/-! ## §4 Expressions with one text -/

namespace Expr

variable {e e' : Expr}

/-- The tokens of an expression determine it up to the grouping of assignments. -/
theorem bare_regroup_eq_of_tokens (he : e.isReadable = true) (he' : e'.isReadable = true)
    (h : e.tokens = e'.tokens) : e.regroup.bare = e'.regroup.bare := by
  have hrun := Reader.run_tokens e he [] []
  rw [h, Reader.run_tokens e' he' [] []] at hrun
  simp only [List.nil_append, Option.some.injEq, Reader.mk.injEq, and_true] at hrun
  rw [regroup, regroup, bare_grouped, bare_grouped, hrun.1, hrun.2]

/-- Two expressions have the same text exactly if they are the same, spans apart, once assignments are
grouped to the right. So the text of an expression in which no assignment is assigned to, called, or
asked for a property determines it up to spans. -/
theorem print_eq_iff_regroup (he : e.isReadable = true) (he' : e'.isReadable = true) :
    (e.print = e'.print ↔ e.regroup.bare = e'.regroup.bare) ∧
      (e.isRightGrouped = true → e'.isRightGrouped = true → e.print = e'.print →
        e.bare = e'.bare) := by
  have hiff : e.print = e'.print ↔ e.regroup.bare = e'.regroup.bare := by
    constructor
    · intro h
      exact bare_regroup_eq_of_tokens he he' (tokens_eq_of_print he he' h)
    · intro h
      calc e.print
        _ = e.regroup.bare.print := by rw [print_bare, print_regroup]
        _ = e'.print := by rw [h, print_bare, print_regroup]
  refine ⟨hiff, fun hright hright' h => ?_⟩
  rw [← bare_regroup e hright, ← bare_regroup e' hright']
  exact hiff.mp h

/-- The call `f(-1, 'it\'s')`. -/
def quotingCall : Expr :=
  .call (.name "f") [.int (-1) {}, .string "it's" {}] {}

/-- A property of an assignment, `(a = f(-1, 'it\'s')).x`. -/
def propertyOfAssign : Expr :=
  .member (.assign (.name "a") quotingCall {}) { name := "x" } {}

/-- An assignment of a property, `a = f(-1, 'it\'s').x`. -/
def assignOfProperty : Expr :=
  .assign (.name "a") (.member quotingCall { name := "x" } {}) {}

/-- The assignment is the same once it is grouped to the right, and so the texts are. -/
theorem print_propertyOfAssign : propertyOfAssign.isReadable = true ∧
    assignOfProperty.isReadable = true ∧ propertyOfAssign.print = assignOfProperty.print := by
  have he : propertyOfAssign.isReadable = true := by decide +kernel
  have he' : assignOfProperty.isReadable = true := by decide +kernel
  exact ⟨he, he', (print_eq_iff_regroup he he').1.mpr rfl⟩

/-- The expression `(a = b) = c`. -/
def leftNested : Expr :=
  .assign (.assign (.name "a") (.name "b") {}) (.name "c") {}

/-- The expression `a = (b = c)`. -/
def rightNested : Expr :=
  .assign (.name "a") (.assign (.name "b") (.name "c") {}) {}

/-- The text does not tell how two assignments are nested. -/
theorem print_leftNested : leftNested.isReadable = true ∧ rightNested.isReadable = true ∧
    leftNested.print = rightNested.print ∧ leftNested.bare ≠ rightNested.bare := by
  refine ⟨by decide +kernel, by decide +kernel, by decide +kernel, ?_⟩
  intro h
  cases h

end Expr

end FieldPromotion
