import Idl.Source

/-!
# Schema syntax

The tree of one schema file. Every node carries the span it was read from. Types and constant
expressions are inductive; the remaining constructs are structures over them.
-/
namespace Idl

structure Identifier where
  text : String
  span : Span
deriving DecidableEq, Repr

structure IntegerLiteral where
  value : Int
  span : Span
deriving DecidableEq, Repr

structure StringLiteral where
  text : String
  span : Span
deriving DecidableEq, Repr

/-- Identifiers joined by dots. -/
structure Name where
  head : Identifier
  tail : List Identifier
  span : Span
deriving DecidableEq, Repr

def Name.path (name : Name) : List Identifier :=
  name.head :: name.tail

/-- The text of identifiers joined by dots. -/
def dotted (path : List Identifier) : String :=
  ".".intercalate (path.map (·.text))

def Name.text (name : Name) : String :=
  dotted name.path

inductive Builtin where
  | bool | i32 | i64 | string | double | void
deriving DecidableEq, Repr

def Builtin.text : Builtin → String
  | bool => "bool"
  | i32 => "i32"
  | i64 => "i64"
  | string => "string"
  | double => "double"
  | void => "void"

/-- A type as it is written. -/
inductive TypeRef where
  | builtin (type : Builtin) (span : Span)
  | list (element : TypeRef) (span : Span)
  | map (key value : TypeRef) (span : Span)
  | name (name : Name)
deriving DecidableEq, Repr

namespace TypeRef

def span : TypeRef → Span
  | builtin _ span => span
  | list _ span => span
  | map _ _ span => span
  | name n => n.span

def text : TypeRef → String
  | builtin type _ => type.text
  | list element _ => "list<" ++ element.text ++ ">"
  | map key value _ => "map<" ++ key.text ++ "," ++ value.text ++ ">"
  | name n => n.text

end TypeRef

/-- A constant expression. -/
inductive Expr where
  | integer (literal : IntegerLiteral)
  | string (literal : StringLiteral)
  | bool (value : Bool) (span : Span)
  | list (elements : List Expr) (span : Span)
  | map (entries : List (Expr × Expr)) (span : Span)
  | name (name : Name)
deriving Repr

namespace Expr

def span : Expr → Span
  | integer literal => literal.span
  | string literal => literal.span
  | bool _ span => span
  | list _ span => span
  | map _ span => span
  | name n => n.span

/-- What the expression looks like, as diagnostics call it. -/
def kind : Expr → String
  | integer _ => "integer"
  | string _ => "string"
  | bool _ _ => "bool"
  | list _ _ => "list"
  | map _ _ => "map"
  | name _ => "name"

mutual

/-- The expression on one line. -/
def text : Expr → String
  | integer literal => toString literal.value
  | string literal => "\"" ++ literal.text ++ "\""
  | bool value _ => if value then "true" else "false"
  | list elements _ => "[" ++ ", ".intercalate (texts elements) ++ "]"
  | map entries _ => "\x7b" ++ ", ".intercalate (entryTexts entries) ++ "\x7d"
  | name n => n.text

def texts : List Expr → List String
  | [] => []
  | e :: es => e.text :: texts es

def entryTexts : List (Expr × Expr) → List String
  | [] => []
  | (key, value) :: entries => (key.text ++ ": " ++ value.text) :: entryTexts entries

end

mutual

/-- Deriving does not reach into the lists of a constructor, so the comparison is spelled out. -/
def decEq : (e f : Expr) → Decidable (e = f)
  | .integer a, f => match f with
    | .integer b => decidable_of_iff (a = b) (by simp)
    | .string _ | .bool _ _ | .list _ _ | .map _ _ | .name _ => .isFalse nofun
  | .string a, f => match f with
    | .string b => decidable_of_iff (a = b) (by simp)
    | .integer _ | .bool _ _ | .list _ _ | .map _ _ | .name _ => .isFalse nofun
  | .bool a s, f => match f with
    | .bool b t => decidable_of_iff (a = b ∧ s = t) (by simp)
    | .integer _ | .string _ | .list _ _ | .map _ _ | .name _ => .isFalse nofun
  | .list a s, f => match f with
    | .list b t =>
      have := decEqs a b
      decidable_of_iff (a = b ∧ s = t) (by simp)
    | .integer _ | .string _ | .bool _ _ | .map _ _ | .name _ => .isFalse nofun
  | .map a s, f => match f with
    | .map b t =>
      have := decEqEntries a b
      decidable_of_iff (a = b ∧ s = t) (by simp)
    | .integer _ | .string _ | .bool _ _ | .list _ _ | .name _ => .isFalse nofun
  | .name a, f => match f with
    | .name b => decidable_of_iff (a = b) (by simp)
    | .integer _ | .string _ | .bool _ _ | .list _ _ | .map _ _ => .isFalse nofun

def decEqs : (es fs : List Expr) → Decidable (es = fs)
  | [], [] => .isTrue rfl
  | [], _ :: _ | _ :: _, [] => .isFalse nofun
  | e :: es, f :: fs =>
    have := decEq e f
    have := decEqs es fs
    decidable_of_iff (e = f ∧ es = fs) (by simp)

def decEqEntries : (es fs : List (Expr × Expr)) → Decidable (es = fs)
  | [], [] => .isTrue rfl
  | [], _ :: _ | _ :: _, [] => .isFalse nofun
  | (k, v) :: es, (l, w) :: fs =>
    have := decEq k l
    have := decEq v w
    have := decEqEntries es fs
    decidable_of_iff ((k = l ∧ v = w) ∧ es = fs) (by simp)

end

instance : DecidableEq Expr :=
  decEq

end Expr

/-- Names the package that generated code goes to; the scope says for which language, or `*` for
all. -/
structure NamespaceDirective where
  scope : String
  name : String
  span : Span
deriving DecidableEq, Repr

structure IncludeDirective where
  path : StringLiteral
  span : Span
deriving DecidableEq, Repr

structure ConstantDecl where
  type : TypeRef
  name : Identifier
  value : Expr
  span : Span
deriving DecidableEq, Repr

structure TypedefDecl where
  type : TypeRef
  name : Identifier
  span : Span
deriving DecidableEq, Repr

structure EnumEntry where
  name : Identifier
  value : Option IntegerLiteral
  span : Span
deriving DecidableEq, Repr

structure EnumDecl where
  name : Identifier
  entries : List EnumEntry
  span : Span
deriving DecidableEq, Repr

inductive Requiredness where
  | required | optional
deriving DecidableEq, Repr

def Requiredness.text : Requiredness → String
  | required => "required"
  | optional => "optional"

structure Field where
  order : Option IntegerLiteral
  requiredness : Option Requiredness
  type : TypeRef
  name : Identifier
  default : Option Expr
  span : Span
deriving DecidableEq, Repr

/-- Exceptions are structs that methods may throw. -/
inductive StructKind where
  | struct | exception
deriving DecidableEq, Repr

def StructKind.text : StructKind → String
  | struct => "struct"
  | exception => "exception"

structure StructDecl where
  kind : StructKind
  name : Identifier
  fields : List Field
  span : Span
deriving DecidableEq, Repr

/-- An argument of a method or an exception that it throws. -/
structure Argument where
  order : Option IntegerLiteral
  type : TypeRef
  name : Identifier
  span : Span
deriving DecidableEq, Repr

structure Method where
  oneway : Bool
  returns : TypeRef
  name : Identifier
  arguments : List Argument
  throws : List Argument
  span : Span
deriving DecidableEq, Repr

structure ServiceDecl where
  name : Identifier
  parent : Option Name
  methods : List Method
  span : Span
deriving DecidableEq, Repr

inductive Declaration where
  | constant (decl : ConstantDecl)
  | typedef (decl : TypedefDecl)
  | enum (decl : EnumDecl)
  | struct (decl : StructDecl)
  | service (decl : ServiceDecl)
deriving DecidableEq, Repr

namespace Declaration

def name : Declaration → Identifier
  | constant d => d.name
  | typedef d => d.name
  | enum d => d.name
  | struct d => d.name
  | service d => d.name

def span : Declaration → Span
  | constant d => d.span
  | typedef d => d.span
  | enum d => d.span
  | struct d => d.span
  | service d => d.span

/-- What is declared, as diagnostics call it. -/
def kind : Declaration → String
  | constant _ => "constant"
  | typedef _ => "typedef"
  | enum _ => "enum"
  | struct d => d.kind.text
  | service _ => "service"

end Declaration

structure Document where
  namespaces : List NamespaceDirective
  includes : List IncludeDirective
  declarations : List Declaration
  span : Span
deriving DecidableEq, Repr

end Idl
