import VersionSweep.Language.Span

/-!
# Syntax trees

The programs of the small language that the compiler versions understand: variables with an optional
type and value, imports of names from other files, and expressions standing for themselves.
-/

namespace VersionSweep

/-- An occurrence of a name. -/
structure Ident where
  text : String
  span : Span
  deriving DecidableEq, Repr

/-- The words that declare a variable. -/
inductive VarKeyword where
  | var
  | letVar
  | const
  deriving DecidableEq, Repr

namespace VarKeyword

def word : VarKeyword → String
  | var => "var"
  | letVar => "let"
  | const => "const"

def ofWord? (word : String) : Option VarKeyword :=
  if word = "var" then some var
  else if word = "let" then some letVar
  else if word = "const" then some const
  else none

/-- Whether a name so declared may be declared only once. -/
def isBlockScoped (keyword : VarKeyword) : Bool :=
  keyword ≠ .var

end VarKeyword

inductive Expr where
  | number (text : String) (span : Span)
  | string (value : String) (span : Span)
  | bool (value : Bool) (span : Span)
  | name (ident : Ident)
  | paren (inner : Expr) (span : Span)
  | member (object : Expr) (property : Ident) (span : Span)
  | call (callee : Expr) (arguments : List Expr) (span : Span)

namespace Expr

def span : Expr → Span
  | number _ span => span
  | string _ span => span
  | bool _ span => span
  | name ident => ident.span
  | paren _ span => span
  | member _ _ span => span
  | call _ _ span => span

def isLiteral : Expr → Bool
  | number _ _ => true
  | string _ _ => true
  | bool _ _ => true
  | paren inner _ => inner.isLiteral
  | _ => false

end Expr

/-- A variable with what its declaration says about it. -/
structure VarDecl where
  exported : Bool
  /-- Declared to exist elsewhere. -/
  ambient : Bool
  keyword : VarKeyword
  name : Ident
  annotation : Option Ident
  init : Option Expr
  span : Span

/-- Names taken from another file. -/
structure ImportDecl where
  names : List Ident
  /-- The text that tells which file, without its quotes. -/
  specifier : String
  specifierSpan : Span
  span : Span

inductive Statement where
  | var (decl : VarDecl)
  | importNames (decl : ImportDecl)
  | expr (value : Expr) (span : Span)

namespace Statement

def span : Statement → Span
  | var decl => decl.span
  | importNames decl => decl.span
  | expr _ span => span

def makesModule : Statement → Bool
  | var decl => decl.exported
  | importNames _ => true
  | expr _ _ => false

end Statement

end VersionSweep
