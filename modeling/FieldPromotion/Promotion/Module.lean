import FieldPromotion.Classes.Order
import FieldPromotion.Promotion.Class
import FieldPromotion.Promotion.Placement

/-!
# Promoting the argument fields of a module

The classes of a module are taken in inheritance order, so that the fields promoted in a superclass
are known when a class below it is looked at. A class that cannot be changed is left as it is, and
so are all classes below it; the others are changed all the same.
-/

namespace FieldPromotion

/-! ## §1 Reports -/

/-- The promoted fields of one class. -/
structure ClassReport where
  cls : String
  fields : List FieldSummary
  deriving DecidableEq, Inhabited

/-- What was promoted in a module, class by class. -/
structure Report where
  classes : List ClassReport := []
  deriving DecidableEq, Inhabited

namespace Report

/-- The report of the first class of a name. -/
def class? (r : Report) (name : String) : Option ClassReport :=
  r.classes.find? (·.cls == name)

/-- The number of promoted fields. -/
def fieldCount (r : Report) : Nat :=
  r.classes.foldr (fun c n => c.fields.length + n) 0

end Report

/-- The outcome for a module: the module as it is afterwards, a report if nothing was wrong or else
all errors, and what happened on the way. -/
structure Outcome where
  module : Module
  result : Except (List Error) Report
  events : List Event := []

/-! ## §2 Classes that are not looked at -/

/-- The errors of classes that repeat the name of an earlier one. -/
def ClassTable.duplicateErrors (t : ClassTable) : List Error :=
  t.duplicates.map fun d => .duplicateClass (t.nameOf d.2) (t.spanOf d.1) (t.spanOf d.2)

/-- The error of a class whose superclass chain loops. -/
def ClassTable.cyclicError (t : ClassTable) (id : ClassId) : Error :=
  .cyclicInheritance (t.nameOf id) (t.spanOf id)

/-- Whether the chain of a blocked class meets another class of the module that is on a loop or
blocked; then the error is reported there. -/
def ClassTable.isCovered (t : ClassTable) (o : InheritanceOrder) (id : ClassId) : Bool :=
  (t.ancestors id).any fun a => o.cycles.contains a || o.blocked.contains a

/-- The errors of all classes whose superclass chain loops. -/
def ClassTable.cyclicErrors (t : ClassTable) (o : InheritanceOrder) : List Error :=
  (o.cycles ++ o.blocked.filter fun id => !t.isCovered o id).map t.cyclicError

/-- The events of the blocked classes that are passed over. -/
def ClassTable.coveredEvents (t : ClassTable) (o : InheritanceOrder) : List Event :=
  (o.blocked.filter (t.isCovered o)).map fun id => .underCycle (t.nameOf id)

/-! ## §3 One class after the other -/

/-- A module in the course of promotion. `failed` has the classes that are left as they are. -/
structure Progress where
  table : ClassTable
  statements : List Stmt
  failed : List ClassId := []
  reports : List ClassReport := []
  errors : List Error := []
  events : List Event := []

namespace Progress

/-- Leaves a class as it is. -/
def fail (p : Progress) (id : ClassId) : Progress :=
  { p with failed := id :: p.failed }

/-- Puts a class into the place of a statement. -/
def put (p : Progress) (statement : Nat) (c : ClassDecl) : Progress :=
  { p with statements := p.statements.set statement (.classDecl c) }

/-- Takes up the new fields of a changed class. -/
def accept (p : Progress) (id : ClassId) (new : Promoted) : Progress :=
  { p with
    table := new.fields.foldl (fun t f => t.addField id { name := f.name, span := f.span }) p.table
    reports := p.reports ++ [{ cls := new.decl.name.name, fields := new.fields }]
    events := p.events ++ new.events }

/-- Leaves a class as it is because of its own errors. -/
def reject (p : Progress) (id : ClassId) (cls : String) (errors : List Error) : Progress :=
  { p.fail id with
    errors := p.errors ++ errors
    events := p.events ++ [.leftAsParsed cls errors.length] }

/-- Looks at the class `id`, declared at position `statement`. -/
def visit (options : Options) (spoilt : List Nat) (p : Progress) (id : ClassId) (statement : Nat) :
    Progress :=
  if p.failed.contains id then p
  else if spoilt.contains statement then p.fail id
  else
    match (p.table.ancestors id).find? p.failed.contains with
    | some ancestor =>
      { p.fail id with
        events := p.events ++ [.ancestorFailed (p.table.nameOf id) (p.table.nameOf ancestor)] }
    | none =>
      match (p.statements[statement]?).bind Stmt.class? with
      | none => p
      | some c =>
        -- the class is edited where it stands, whether this succeeds or not
        match (ClassDecl.edit (p.table.fieldIndex id) options).run c with
        | .ok (fields, events) decl => (p.put statement decl).accept id { decl, fields, events }
        | .error errors decl => (p.put statement decl).reject id decl.name.name errors

/-- Looks at the class `id`. -/
def step (options : Options) (spoilt : List Nat) (p : Progress) (id : ClassId) : Progress :=
  match (p.table.get? id).bind ClassEntry.statement with
  | none => p
  | some statement => p.visit options spoilt id statement

end Progress

/-! ## §4 The whole module -/

namespace Module

/-- The progress before the first class: what is known from the table alone. -/
def start (m : Module) (externals : ClassTable) : Progress :=
  let table := externals.registerModule m
  let o := table.inheritanceOrder
  { table
    statements := m.statements
    failed := table.duplicates.map Prod.snd ++ o.cycles ++ o.blocked
    errors := m.checkContexts.errors ++ table.duplicateErrors ++ table.cyclicErrors o
    events := externals.registerModuleEvents m ++ table.coveredEvents o }

/-- The progress after the last class. -/
def finish (m : Module) (externals : ClassTable) (options : Options) : Progress :=
  (externals.registerModule m).inheritanceOrder.order.foldl
    (Progress.step options m.checkContexts.failed) (m.start externals)

/-- Promotes the argument fields of a module. `externals` has the classes of the host. -/
def promote (m : Module) (externals : ClassTable) (options : Options) : Outcome :=
  let p := m.finish externals options
  { module := { m with statements := p.statements }
    result := if p.errors.isEmpty then .ok { classes := p.reports } else .error p.errors
    events := p.events }

end Module

end FieldPromotion
