import FieldPromotion.Classes.Table
import FieldPromotion.Promotion.Role

/-!
# Clashing field names

An argument field may not have the name of a field that its class has or inherits, nor that of an
earlier argument field of the same constructor.
-/

namespace FieldPromotion

/-- The error of an argument field whose name is taken. `earlier` holds the names of the argument
fields before it, first occurrence first. -/
def Param.clash? (cls : String) (index : FieldIndex) (earlier : List (String × Span)) (p : Param) :
    Option Error :=
  match index.get? p.name.name with
  | some origin =>
    some (.duplicateField p.name.name origin.className origin.span p.name.span)
  | none =>
    match earlier.lookup p.name.name with
    | some earlier => some (.duplicateField p.name.name cls earlier p.name.span)
    | none => none

/-- The errors of the argument fields among parameters that are given with their roles. -/
def Param.clashes (cls : String) (index : FieldIndex) (earlier : List (String × Span)) :
    List (Param × Role) → List Error
  | [] => []
  | (_, .plain) :: rest => clashes cls index earlier rest
  | (p, .field _) :: rest =>
    (p.clash? cls index earlier).toList
      ++ clashes cls index (earlier ++ [(p.name.name, p.name.span)]) rest

end FieldPromotion
