/-!
# TOML documents

A document is a table. It is put together from headers and from key/value lines, and a table keeps
in mind how it came about, because that decides who may still add to it: a table with a header of
its own is complete, one that was only named on the way to another may get a header later, one that
came from dotted keys takes more dotted keys, and one in braces takes nothing.
-/

namespace FieldPromotion.Toml

/-! ## §1 Values -/

/-- How a table came about. -/
inductive TableKind where
  /-- It has a header of its own. -/
  | headed
  /-- A header named it on the way to another table. -/
  | implied
  /-- Dotted keys made it. -/
  | dotted
  /-- It is written in braces. -/
  | inline
  deriving DecidableEq, Inhabited

/-- A value; the entries of a table are in the order of their keys' first use. Numbers that are
not integers, and dates, are not kept apart. -/
inductive Value where
  | string (value : String)
  | int (value : Int)
  | float
  | bool (value : Bool)
  | dateTime
  | array (items : List Value)
  | table (kind : TableKind) (entries : List (String × Value))
  /-- The tables that share a header in double brackets, the last one first. -/
  | tables (newestFirst : List (List (String × Value)))
  deriving Inhabited

/-- The entries of a table. -/
abbrev Entries := List (String × Value)

/-! ## §2 Adding to a table -/

/-- Replaces the value of a key, which comes last if it is new. -/
def put (key : String) (value : Value) : Entries → Entries
  | [] => [(key, value)]
  | (k, v) :: es => if k = key then (k, value) :: es else (k, v) :: put key value es

/-- Changes the table that a path leads to. Tables that are missing on the way are made. A header
(`viaHeader`) may pass through any table that is not in braces, while a dotted key may not enter a
table that has a header of its own. A path through tables in double brackets leads to the newest. -/
def update (viaHeader : Bool) (change : TableKind → Entries → Option Entries) :
    TableKind → List String → Entries → Option Entries
  | kind, [], es => change kind es
  | _, key :: path, es =>
    match es.lookup key with
    | none =>
      let kind := if viaHeader then .implied else .dotted
      (update viaHeader change kind path []).map fun new => put key (.table kind new) es
    | some (.table .inline _) => none
    | some (.table .headed old) =>
      if viaHeader then
        (update viaHeader change .headed path old).map fun new => put key (.table .headed new) es
      else none
    | some (.table kind old) =>
      (update viaHeader change kind path old).map fun new => put key (.table kind new) es
    | some (.tables (newest :: older)) =>
      (update viaHeader change .headed path newest).map fun new =>
        put key (.tables (new :: older)) es
    | some _ => none

/-- Adds an entry, whose key has to be new. -/
def insertNew (key : String) (value : Value) (es : Entries) : Option Entries :=
  if (es.lookup key).isSome then none else some (put key value es)

/-- Adds an entry under a dotted key to a table of the given kind: `path` is what stands before the
last dot. The entry goes into a table made by dotted keys exactly when there is such a path. -/
def assign (kind : TableKind) (path : List String) (key : String) (value : Value) (es : Entries) :
    Option Entries :=
  update false (fun reached es =>
    if (reached == .dotted) == path.isEmpty then none else insertNew key value es) kind path es

/-- Opens a table by its header. -/
def openTable (path : List String) (key : String) (es : Entries) : Option Entries :=
  update true (fun _ es =>
    match es.lookup key with
    | none => some (put key (.table .headed []) es)
    | some (.table .implied old) => some (put key (.table .headed old) es)
    | some _ => none) .headed path es

/-- Opens one more table of those that share a header in double brackets. -/
def openTables (path : List String) (key : String) (es : Entries) : Option Entries :=
  update true (fun _ es =>
    match es.lookup key with
    | none => some (put key (.tables [[]]) es)
    | some (.tables old) => some (put key (.tables ([] :: old)) es)
    | some _ => none) .headed path es

/-- Adds an entry to the table whose header has been opened last. -/
def assignUnder (header path : List String) (key : String) (value : Value) (es : Entries) :
    Option Entries :=
  update true (fun _ es => assign .headed path key value es) .headed header es

end FieldPromotion.Toml
