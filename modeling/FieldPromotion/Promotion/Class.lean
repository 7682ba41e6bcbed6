import FieldPromotion.Promotion.Clash
import FieldPromotion.Promotion.Field

/-!
# Promoting the argument fields of a class

A class is changed as a whole or left as it is. It is left as it is when it has two constructors,
when some parameter of its constructor has no role, or when a field name is taken. The class is edited
in place: whatever was done to it before an error would stay done, so all checks come first.
-/

namespace FieldPromotion

/-- A changed class, its new fields, and what happened on the way. -/
structure Promoted where
  decl : ClassDecl
  fields : List FieldSummary := []
  events : List Event := []

/-- A parameter after promotion: an argument field has given up its annotations and modifiers. -/
def Param.afterPromotion (p : Param) : Role → Param
  | .plain => p
  | .field _ => p.stripped

/-- The fields of the argument fields among parameters that are given with their roles. -/
def promotedFields (options : Options) (ps : List (Param × Role)) : List FieldDecl :=
  ps.filterMap fun pr => pr.2.candidate?.map fun c => pr.1.toField c options.defaultVisibility

/-- A constructor whose argument fields have become plain parameters, assigned to their fields. -/
def CtorDecl.promote (c : CtorDecl) (ps : List (Param × Role)) (fields : List FieldDecl) :
    CtorDecl :=
  let plain : CtorDecl := { c with params := ps.map fun pr => pr.1.afterPromotion pr.2 }
  plain.assignFields (fields.map FieldDecl.name)

/-- Replaces the constructors among members. -/
def Member.withCtor (new : CtorDecl) : Member → Member
  | .ctor _ => .ctor new
  | m => m

namespace ClassDecl

/-- One error for each constructor after the first. -/
def extraCtors (c : ClassDecl) : List Error :=
  match c.ctors with
  | [] => []
  | first :: rest => rest.map fun r => .duplicateConstructor c.name.name first.span r.span

/-- Ends an edit with errors, if there are any. -/
def refuse (errors : List Error) : EStateM (List Error) ClassDecl Unit :=
  if errors.isEmpty then pure () else throw errors

/-- Edits the members of a class. -/
def editMembers (f : List Member → List Member) : EStateM (List Error) ClassDecl Unit :=
  modify fun c => { c with members := f c.members }

/-- Promotes the argument fields of the class at hand. `index` has the fields that the class has or
inherits. -/
def edit (index : FieldIndex) (options : Options) :
    EStateM (List Error) ClassDecl (List FieldSummary × List Event) := do
  let c ← get
  refuse c.extraCtors
  match c.ctors with
  | [] => return ([], [])
  | ctor :: _ =>
    match Param.roles ctor.params with
    | .error errors => throw errors
    | .ok roles =>
      let ps := ctor.params.zip roles
      refuse (Param.clashes c.name.name index [] ps)
      -- from here on the class is changed
      let fields := promotedFields options ps
      editMembers (List.map (Member.withCtor (ctor.promote ps fields)))
      editMembers (insertFields options.fieldOrder fields)
      return (fields.map FieldDecl.summary, .promoting c.name.name fields.length ::
        fields.map fun f => .promoted c.name.name f.name.name f.storage f.visibility)

/-- The changed class, if nothing was wrong. -/
def promote (c : ClassDecl) (index : FieldIndex) (options : Options) :
    Except (List Error) Promoted :=
  match (edit index options).run c with
  | .ok (fields, events) decl => .ok { decl, fields, events }
  | .error errors _ => .error errors

end ClassDecl

end FieldPromotion
