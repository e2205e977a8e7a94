import VersionSweep.Compiler.Dialect
import VersionSweep.Language.Problem
import VersionSweep.Typing.BasicType
import VersionSweep.Language.Tree

/-!
# Types of expressions

The type of an expression follows from the types of the names in it.  Unknown names and calls of
something that cannot be called are reported, callees before arguments.
-/

namespace VersionSweep

/-- The type of an expression, with its text if it is a literal. -/
structure ExprType where
  type : BasicType
  literal : Option String
  deriving DecidableEq, Repr

namespace ExprType

def plain (type : BasicType) : ExprType := ⟨type, none⟩

def describe (dialect : Dialect) (exprType : ExprType) : String :=
  match exprType.literal with
  | some text => if dialect.namesLiterals then text else exprType.type.word
  | none => exprType.type.word

end ExprType

namespace Expr

def callFindings (callee : Expr) (type : BasicType) : List Finding :=
  if type = .any then [] else [⟨.notCallable type.word, callee.span⟩]

mutual

/-- The type of an expression and the findings in it, given the types of names. -/
def typing (typeOf : String → Option BasicType) : Expr → ExprType × List Finding
  | .number text _ => (⟨.number, some text⟩, [])
  | .string value _ => (⟨.string, some ("\"" ++ value ++ "\"")⟩, [])
  | .bool value _ => (⟨.boolean, some (if value then "true" else "false")⟩, [])
  | .name ident =>
    match typeOf ident.text with
    | some type => (.plain type, [])
    | none => (.plain .any, [⟨.unknownName ident.text, ident.span⟩])
  | .paren inner _ => typing typeOf inner
  | .member object _ _ => (.plain .any, (typing typeOf object).2)
  | .call callee arguments _ =>
    let (calleeType, findings) := typing typeOf callee
    (.plain .any,
      findings ++ callFindings callee calleeType.type ++ typings typeOf arguments)

def typings (typeOf : String → Option BasicType) : List Expr → List Finding
  | [] => []
  | argument :: rest => (typing typeOf argument).2 ++ typings typeOf rest

end

end Expr

end VersionSweep
