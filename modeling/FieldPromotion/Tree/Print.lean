import FieldPromotion.Decimal.Layout
import FieldPromotion.Tree.Stmt

/-!
# Source text of a tree

Expressions, types and parameters are written on one line. Statements and class members are
written as whole lines, indented by four spaces a level.
-/

namespace FieldPromotion

/-! ## §1 Types and expressions -/

namespace TypeExpr

mutual

/-- The source text of a type annotation. -/
def print : TypeExpr → String
  | .primitive kind _ => kind.name
  | .named name _ => name.name
  | .applied name args _ => name.name ++ "<" ++ ", ".intercalate (printAll args) ++ ">"
  | .array element _ => "Array<" ++ element.print ++ ">"

/-- The source texts of several annotations. -/
def printAll : List TypeExpr → List String
  | [] => []
  | t :: ts => t.print :: printAll ts

end

end TypeExpr

/-- A character inside a string literal: backslashes and single quotes are escaped. -/
def Expr.escape : Char → List Char
  | '\\' => ['\\', '\\']
  | '\'' => ['\\', '\'']
  | c => [c]

/-- A string literal in single quotes. -/
def Expr.printString (s : String) : String :=
  "'" ++ String.ofList (s.toList.flatMap escape) ++ "'"

namespace Expr

mutual

/-- The source text of an expression. -/
def print : Expr → String
  | .int value _ => toString value.toInt
  | .float value _ => Decimal.sourceText value
  | .string value _ => printString value
  | .bool value _ => if value then "true" else "false"
  | .null _ => "null"
  | .ident id => id.name
  | .thisRef _ => "this"
  | .superRef _ => "super"
  | .member object property _ => object.print ++ "." ++ property.name
  | .call callee arguments _ =>
    callee.print ++ "(" ++ ", ".intercalate (printAll arguments) ++ ")"
  | .assign target value _ => target.print ++ " = " ++ value.print

/-- The source texts of several expressions. -/
def printAll : List Expr → List String
  | [] => []
  | e :: es => e.print :: printAll es

end

end Expr

/-! ## §2 Parameters -/

/-- An annotation; the argument list is left out when it is empty. -/
def Metadata.print (m : Metadata) : String :=
  if m.args.isEmpty then "@" ++ m.name.name
  else "@" ++ m.name.name ++ "(" ++ ", ".intercalate (Expr.printAll m.args) ++ ")"

/-- Annotations in front of what they annotate. -/
def Metadata.printAll (ms : List Metadata) : String :=
  String.join (ms.map fun m => m.print ++ " ")

/-- A type after a colon, if there is one. -/
def TypeExpr.printAfterColon (t : Option TypeExpr) : String :=
  match t with
  | none => ""
  | some t => ":" ++ t.print

/-- An initial value after an equals sign, if there is one. -/
def Expr.printAfterEquals (e : Option Expr) : String :=
  match e with
  | none => ""
  | some e => " = " ++ e.print

/-- The source text of a parameter. -/
def Param.print (p : Param) : String :=
  Metadata.printAll p.metadata
    ++ String.join (p.modifiers.map fun m => m.keyword.text ++ " ")
    ++ p.name.name
    ++ TypeExpr.printAfterColon p.type
    ++ Expr.printAfterEquals p.defaultValue

/-- A parameter list without its parentheses. -/
def Param.printAll (ps : List Param) : String :=
  ", ".intercalate (ps.map Param.print)

/-! ## §3 Headers -/

/-- A variable declaration. -/
def VarDecl.print (d : VarDecl) : String :=
  d.storage.keyword ++ " " ++ d.name.name
    ++ TypeExpr.printAfterColon d.type ++ Expr.printAfterEquals d.init ++ ";"

/-- A field declaration. -/
def FieldDecl.print (d : FieldDecl) : String :=
  Metadata.printAll d.metadata
    ++ d.visibility.keyword ++ " "
    ++ (if d.isStatic then "static " else "")
    ++ d.storage.keyword ++ " " ++ d.name.name
    ++ TypeExpr.printAfterColon d.type ++ Expr.printAfterEquals d.init ++ ";"

/-- A function up to its body. -/
def printSignature (name : Ident) (params : List Param) (returns : Option TypeExpr) : String :=
  "function " ++ name.name ++ "(" ++ Param.printAll params ++ ")"
    ++ TypeExpr.printAfterColon returns

/-- A method up to its body. -/
def printMethodHeader (metadata : List Metadata) (visibility : Visibility)
    (isAbstract isStatic : Bool) (name : Ident) (params : List Param) (returns : Option TypeExpr) :
    String :=
  Metadata.printAll metadata
    ++ visibility.keyword ++ " "
    ++ (if isStatic then "static " else "")
    ++ (if isAbstract then "abstract " else "")
    ++ printSignature name params returns

/-- A class up to its members. -/
def printClassHeader (metadata : List Metadata) (isAbstract : Bool) (name : Ident)
    (superclass : Option Ident) : String :=
  Metadata.printAll metadata
    ++ (if isAbstract then "abstract " else "")
    ++ "class " ++ name.name
    ++ (match superclass with
        | none => ""
        | some s => " extends " ++ s.name)

/-! ## §4 Lines -/

/-- The blanks in front of a line. -/
def indent (depth : Nat) : String :=
  String.ofList (List.replicate (4 * depth) ' ')

/-- A line of text at some depth. -/
def line (depth : Nat) (text : String) : String :=
  indent depth ++ text ++ "\n"

/-- A header that opens a brace, what stands inside, and the closing brace. -/
def braced (depth : Nat) (header inside : String) : String :=
  line depth (header ++ "\x7b") ++ inside ++ line depth "\x7d"

mutual

/-- The lines of a statement at some depth. The branches of a conditional and the body of a loop
stand under a header: a block opens on the line of the header, and any other statement stands on
lines of its own, one level deeper. -/
def Stmt.printAt (depth : Nat) : Stmt → String
  | .varDecl d => line depth d.print
  | .funDecl ⟨name, params, returns, ⟨statements, _⟩, _⟩ =>
    braced depth (printSignature name params returns ++ " ") (Stmt.printAllAt (depth + 1) statements)
  | .classDecl ⟨metadata, isAbstract, name, superclass, members, _⟩ =>
    braced depth (printClassHeader metadata isAbstract name superclass ++ " ")
      (Member.printAllAt (depth + 1) members)
  | .expr e _ => line depth (e.print ++ ";")
  | .cond c t none _ =>
    match t with
    | .block ⟨statements, _⟩ =>
      braced depth ("if (" ++ c.print ++ ") ") (Stmt.printAllAt (depth + 1) statements)
    | t => line depth ("if (" ++ c.print ++ ")") ++ Stmt.printAt (depth + 1) t
  | .cond c t (some e) _ =>
    (match t with
      | .block ⟨statements, _⟩ =>
        braced depth ("if (" ++ c.print ++ ") ") (Stmt.printAllAt (depth + 1) statements)
      | t => line depth ("if (" ++ c.print ++ ")") ++ Stmt.printAt (depth + 1) t)
    ++ (match e with
      | .block ⟨statements, _⟩ => braced depth "else " (Stmt.printAllAt (depth + 1) statements)
      | e => line depth "else" ++ Stmt.printAt (depth + 1) e)
  | .loop c body _ =>
    match body with
    | .block ⟨statements, _⟩ =>
      braced depth ("while (" ++ c.print ++ ") ") (Stmt.printAllAt (depth + 1) statements)
    | body => line depth ("while (" ++ c.print ++ ")") ++ Stmt.printAt (depth + 1) body
  | .ret none _ => line depth "return;"
  | .ret (some e) _ => line depth ("return " ++ e.print ++ ";")
  | .block ⟨statements, _⟩ => braced depth "" (Stmt.printAllAt (depth + 1) statements)
  | .empty _ => line depth ";"

/-- The lines of several statements. -/
def Stmt.printAllAt (depth : Nat) : List Stmt → String
  | [] => ""
  | s :: ss => Stmt.printAt depth s ++ Stmt.printAllAt depth ss

/-- The lines of a class member. -/
def Member.printAt (depth : Nat) : Member → String
  | .field d => line depth d.print
  | .method ⟨metadata, visibility, isAbstract, isStatic, name, params, returns, none, _⟩ =>
    line depth
      (printMethodHeader metadata visibility isAbstract isStatic name params returns ++ ";")
  | .method ⟨metadata, visibility, isAbstract, isStatic, name, params, returns,
      some ⟨statements, _⟩, _⟩ =>
    braced depth
      (printMethodHeader metadata visibility isAbstract isStatic name params returns ++ " ")
      (Stmt.printAllAt (depth + 1) statements)
  | .ctor ⟨params, ⟨statements, _⟩, _⟩ =>
    braced depth ("new(" ++ Param.printAll params ++ ") ") (Stmt.printAllAt (depth + 1) statements)

/-- The lines of several class members. -/
def Member.printAllAt (depth : Nat) : List Member → String
  | [] => ""
  | m :: ms => Member.printAt depth m ++ Member.printAllAt depth ms

end

/-- The source text of a statement. -/
def Stmt.print (s : Stmt) : String :=
  s.printAt 0

/-- The source text of a class. -/
def ClassDecl.print (c : ClassDecl) : String :=
  Stmt.print (.classDecl c)

/-- The source text of a module. A declaration is set off by a blank line from what stands before
it. -/
def Module.print (m : Module) : String :=
  match m.statements with
  | [] => ""
  | s :: ss =>
    s.print ++ String.join (ss.map fun s => (if s.isDeclaration then "\n" else "") ++ s.print)

end FieldPromotion
