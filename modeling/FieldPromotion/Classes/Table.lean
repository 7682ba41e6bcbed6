import FieldPromotion.Event

/-!
# The class table

All classes that a superclass name may refer to: those of the module at hand, and those a host
knows of. A class is named by its position in the table, and positions never change. Of several
classes with one name, a name refers to the one registered last; only within one module the first
declaration stays, and the later ones are recorded as repeats.
-/

namespace FieldPromotion

/-! ## §1 Entries -/

/-- The position of a class in the table. -/
abbrev ClassId := Nat

/-- A field known by its name and the place it is declared at. -/
structure FieldSite where
  name : String
  span : Span := {}
  deriving DecidableEq, Inhabited

/-- What is known of a class. `superclass` is the name as written and `parent` the class it refers
to; `statement` is the position of the declaration in its module, if it has one. -/
structure ClassEntry where
  name : String
  span : Span := {}
  superclass : Option String := none
  parent : Option ClassId := none
  fields : List FieldSite := []
  statement : Option Nat := none
  deriving DecidableEq, Inhabited

/-- The entry of a class declared at some position of a module. -/
def ClassDecl.entry (c : ClassDecl) (statement : Nat) : ClassEntry where
  name := c.name.name
  span := c.name.span
  superclass := c.superclass.map Ident.name
  fields := c.fields.map fun f => { name := f.name.name, span := f.name.span }
  statement := some statement

/-! ## §2 The table -/

/-- The table: its entries, the class each name refers to (the newest meaning first), and the pairs
of a first declaration and a repeat of it. -/
structure ClassTable where
  classes : List ClassEntry := []
  names : List (String × ClassId) := []
  duplicates : List (ClassId × ClassId) := []
  deriving Inhabited

namespace ClassTable

/-- The number of classes. -/
def size (t : ClassTable) : Nat :=
  t.classes.length

/-- The entry of a class. -/
def get? (t : ClassTable) (id : ClassId) : Option ClassEntry :=
  t.classes[id]?

/-- The class that a name refers to. -/
def lookup (t : ClassTable) (name : String) : Option ClassId :=
  t.names.lookup name

/-- The name of a class, empty for a position outside the table. -/
def nameOf (t : ClassTable) (id : ClassId) : String :=
  ((t.get? id).map ClassEntry.name).getD ""

/-- The span of a class, empty for a position outside the table. -/
def spanOf (t : ClassTable) (id : ClassId) : Span :=
  ((t.get? id).map ClassEntry.span).getD {}

/-- The superclass of a class, as far as it is known. -/
def parentOf (t : ClassTable) (id : ClassId) : Option ClassId :=
  (t.get? id).bind ClassEntry.parent

/-- Adds an entry that no name refers to. -/
def push (t : ClassTable) (e : ClassEntry) : ClassTable :=
  { t with classes := t.classes ++ [e] }

/-- Adds an entry that its name refers to from now on. -/
def register (t : ClassTable) (e : ClassEntry) : ClassTable :=
  { t.push e with names := (e.name, t.size) :: t.names }

/-- Adds a class of the host. Parents are not resolved yet. -/
def registerExternal (t : ClassTable) (name : String) (superclass : Option String)
    (fields : List FieldSite) : ClassTable :=
  t.register { name, superclass, fields }

/-- Adds a field to a class. -/
def addField (t : ClassTable) (id : ClassId) (field : FieldSite) : ClassTable :=
  { t with classes := t.classes.modify id fun e => { e with fields := e.fields ++ [field] } }

/-! ## §3 Parents -/

/-- Finds the parent of every class by the name of its superclass. -/
def resolveParents (t : ClassTable) : ClassTable :=
  { t with classes := t.classes.map fun e => { e with parent := e.superclass.bind t.lookup } }

/-- The event of a class whose superclass is not in the table. -/
def unresolved? (t : ClassTable) (e : ClassEntry) : Option Event :=
  match e.superclass with
  | none => none
  | some s => if (t.lookup s).isNone then some (.unknownSuperclass e.name s) else none

/-- The events of resolving the parents of a table. -/
def resolveEvents (t : ClassTable) : List Event :=
  t.classes.filterMap t.unresolved?

/-! ## §4 Modules -/

/-- A table in the course of taking up a module: the names declared in that module so far. -/
structure Intake where
  table : ClassTable
  seen : List (String × ClassId) := []

/-- Takes up one class of a module. -/
def Intake.add (i : Intake) (e : ClassEntry) : Intake :=
  match i.seen.lookup e.name with
  | some first =>
    { i with table := { i.table.push e with
        duplicates := i.table.duplicates ++ [(first, i.table.size)] } }
  | none =>
    { table := i.table.register e, seen := (e.name, i.table.size) :: i.seen }

/-- The entries of the classes of a module. -/
def entriesOf (m : Module) : List ClassEntry :=
  m.statements.zipIdx.filterMap fun s => s.1.class?.map fun c => c.entry s.2

/-- Takes up the classes of a module, without resolving parents. -/
def takeUp (t : ClassTable) (m : Module) : ClassTable :=
  ((entriesOf m).foldl Intake.add { table := t }).table

/-- Adds the classes of a module and resolves all parents. -/
def registerModule (t : ClassTable) (m : Module) : ClassTable :=
  (t.takeUp m).resolveParents

/-- The events of adding the classes of a module. -/
def registerModuleEvents (t : ClassTable) (m : Module) : List Event :=
  (t.takeUp m).resolveEvents

/-! ## §5 Ancestors and fields -/

/-- The classes met by following parents, at most as many as given. -/
def chain (t : ClassTable) : Nat → Option ClassId → List ClassId
  | 0, _ => []
  | _ + 1, none => []
  | n + 1, some id => id :: t.chain n (t.parentOf id)

/-- The ancestors of a class, nearest first. A chain that loops is cut off when it has as many
items as there are classes. -/
def ancestors (t : ClassTable) (id : ClassId) : List ClassId :=
  t.chain t.size (t.parentOf id)

end ClassTable

/-- Where a field comes from. -/
structure FieldOrigin where
  cls : ClassId
  className : String
  span : Span
  deriving DecidableEq, Inhabited

/-- The fields that a class has or inherits, nearest first; a name stands for its first entry. -/
structure FieldIndex where
  entries : List (String × FieldOrigin) := []
  deriving DecidableEq, Inhabited

namespace FieldIndex

/-- The nearest field of a name. -/
def get? (index : FieldIndex) (name : String) : Option FieldOrigin :=
  index.entries.lookup name

def contains (index : FieldIndex) (name : String) : Bool :=
  (index.get? name).isSome

/-- The names of the index, each once, in alphabetic order. -/
def names (index : FieldIndex) : List String :=
  (index.entries.map Prod.fst).eraseDups.mergeSort (· ≤ ·)

end FieldIndex

namespace ClassTable

/-- The fields of one class as entries of an index. -/
def origins (t : ClassTable) (id : ClassId) : List (String × FieldOrigin) :=
  match t.get? id with
  | none => []
  | some e => e.fields.map fun f => (f.name, { cls := id, className := e.name, span := f.span })

/-- The fields that a class has or inherits. -/
def fieldIndex (t : ClassTable) (id : ClassId) : FieldIndex where
  entries := (id :: t.ancestors id).flatMap t.origins

end ClassTable

end FieldPromotion
