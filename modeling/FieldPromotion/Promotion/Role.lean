import FieldPromotion.Error

/-!
# Roles of parameters

The modifiers of a constructor parameter decide whether it is a plain parameter or an argument
field. Modifiers come in three groups: `var` and `final`, `public` and `private`, and `static`. At
most one modifier of each group may be written, the others need one of the first group, and an
argument field is never static.
-/

namespace FieldPromotion

/-! ## §1 Roles -/

/-- A parameter that is to become a field. -/
structure Candidate where
  storage : Storage
  visibility : Option Visibility := none
  deriving DecidableEq, Inhabited

/-- The visibility written on the parameter, or else the given one. -/
def Candidate.visibilityOr (c : Candidate) (default : Visibility) : Visibility :=
  c.visibility.getD default

/-- What a parameter is. -/
inductive Role where
  | plain
  | field (candidate : Candidate)
  deriving DecidableEq, Inhabited

def Role.candidate? : Role → Option Candidate
  | .plain => none
  | .field c => some c

/-! ## §2 Slots -/

/-- The modifiers of a parameter that were met so far: there is one slot for each group. -/
structure Slots where
  storage : Option (Storage × Modifier) := none
  visibility : Option (Visibility × Modifier) := none
  static : Option Modifier := none
  deriving DecidableEq, Inhabited

namespace Slots

/-- Puts a modifier into the slot of its group. What was in the slot before comes out. -/
def replace (s : Slots) (m : Modifier) : Option Modifier × Slots :=
  match m.keyword with
  | .storage k => (s.storage.map Prod.snd, { s with storage := some (k, m) })
  | .visibility v => (s.visibility.map Prod.snd, { s with visibility := some (v, m) })
  | .static => (s.static, { s with static := some m })

/-- Puts modifiers into the slots one after the other. The first one whose slot is taken ends this,
together with the modifier in the slot. -/
def fill (s : Slots) : List Modifier → Except (Modifier × Modifier) Slots
  | [] => .ok s
  | m :: ms =>
    match s.replace m with
    | (some first, _) => .error (first, m)
    | (none, s') => s'.fill ms

end Slots

/-! ## §3 Classification -/

/-- The role of a parameter. -/
def Param.role (p : Param) : Except Error Role :=
  match Slots.fill {} p.modifiers with
  | .error (first, second) =>
    .error (.conflictingModifiers p.name.name first.keyword second.keyword second.span)
  | .ok slots =>
    match slots.storage with
    | none =>
      match p.modifiers with
      | [] => .ok .plain
      | stray :: _ => .error (.modifierWithoutStorage p.name.name stray.keyword stray.span)
    | some (storage, _) =>
      match slots.static with
      | some m => .error (.staticField p.name.name m.span)
      | none => .ok (.field { storage, visibility := slots.visibility.map Prod.fst })

/-- The error of a parameter whose modifiers do not fit together. -/
def Param.roleError? (p : Param) : Option Error :=
  match p.role with
  | .error e => some e
  | .ok _ => none

/-- The role of a parameter that has one. -/
def Param.role? (p : Param) : Option Role :=
  match p.role with
  | .error _ => none
  | .ok r => some r

/-- The roles of all parameters, or the errors of those that have none. -/
def Param.roles (ps : List Param) : Except (List Error) (List Role) :=
  match ps.filterMap Param.roleError? with
  | [] => .ok (ps.filterMap Param.role?)
  | errors => .error errors

end FieldPromotion
