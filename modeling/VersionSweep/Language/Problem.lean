import VersionSweep.Diagnostic
import VersionSweep.Language.Span

/-!
# Problems of a program

All that the compiler finds fault with, one constructor for each cause.  The number and the wording
of a problem are functions of its cause.  A problem found at a place of a file is a `Finding`.
-/

namespace VersionSweep

/-- The causes of diagnostics. -/
inductive Problem where
  | unclosedComment
  | unterminatedString
  | invalidCharacter
  /-- Something else stands where this text has to stand. -/
  | expected (what : String)
  | identifierExpected
  | moduleNameExpected
  | statementExpected
  | expressionExpected
  | nestedTooDeep
  | moduleNotFound (specifier : String)
  | notAModule (file : String)
  | noSuchExport (specifier name : String)
  | importConflict (name : String)
  | duplicateImport (name : String)
  | redeclaration (name : String)
  | unknownName (name : String)
  | constantWithoutValue
  | implicitAny (name : String)
  | ambientInitializer
  | notAssignable (source target : String)
  | notCallable (type : String)
  | annotationRequired
  | missingGlobalType (name : String)
  | declarationWithoutEmit
  | isolatedWithoutDeclaration
  | wouldOverwriteInput (path : String)
  deriving DecidableEq, Repr

namespace Problem

def code : Problem → Nat
  | unclosedComment => 1010
  | unterminatedString => 1002
  | invalidCharacter => 1127
  | expected _ => 1005
  | identifierExpected => 1003
  | moduleNameExpected => 1141
  | statementExpected => 1128
  | expressionExpected => 1109
  | nestedTooDeep => 2589
  | moduleNotFound _ => 2307
  | notAModule _ => 2306
  | noSuchExport _ _ => 2305
  | importConflict _ => 2440
  | duplicateImport _ => 2300
  | redeclaration _ => 2451
  | unknownName _ => 2304
  | constantWithoutValue => 1155
  | implicitAny _ => 7005
  | ambientInitializer => 1039
  | notAssignable _ _ => 2322
  | notCallable _ => 2349
  | annotationRequired => 9010
  | missingGlobalType _ => 2318
  | declarationWithoutEmit => 5053
  | isolatedWithoutDeclaration => 5069
  | wouldOverwriteInput _ => 5055

def headline : Problem → String
  | unclosedComment => "'*/' expected."
  | unterminatedString => "Unterminated string literal."
  | invalidCharacter => "Invalid character."
  | expected what => s!"'{what}' expected."
  | identifierExpected => "Identifier expected."
  | moduleNameExpected => "String literal expected."
  | statementExpected => "Declaration or statement expected."
  | expressionExpected => "Expression expected."
  | nestedTooDeep => "Expression is excessively deep and possibly infinite."
  | moduleNotFound specifier =>
    s!"Cannot find module '{specifier}' or its corresponding type declarations."
  | notAModule file => s!"File '{file}' is not a module."
  | noSuchExport specifier name =>
    s!"Module '\"{specifier}\"' has no exported member '{name}'."
  | importConflict name => s!"Import declaration conflicts with local declaration of '{name}'."
  | duplicateImport name => s!"Duplicate identifier '{name}'."
  | redeclaration name => s!"Cannot redeclare block-scoped variable '{name}'."
  | unknownName name => s!"Cannot find name '{name}'."
  | constantWithoutValue => "'const' declarations must be initialized."
  | implicitAny name => s!"Variable '{name}' implicitly has an 'any' type."
  | ambientInitializer => "Initializers are not allowed in ambient contexts."
  | notAssignable source target => s!"Type '{source}' is not assignable to type '{target}'."
  | notCallable _ => "This expression is not callable."
  | annotationRequired =>
    "Variable must have an explicit type annotation with --isolatedDeclarations."
  | missingGlobalType name => s!"Cannot find global type '{name}'."
  | declarationWithoutEmit => "Option 'declaration' cannot be specified with option 'noEmit'."
  | isolatedWithoutDeclaration =>
    "Option 'isolatedDeclarations' cannot be specified without specifying option 'declaration' " ++
      "or option 'composite'."
  | wouldOverwriteInput path =>
    s!"Cannot write file '{path}' because it would overwrite input file."

def elaborations : Problem → List Message
  | notCallable type => [.ofText s!"Type '{type}' has no call signatures."]
  | _ => []

def message (problem : Problem) : Message :=
  .node problem.headline problem.elaborations

def toDiagnostic (problem : Problem) : Diagnostic :=
  ⟨.error, problem.code, problem.message, none⟩

end Problem

/-- A problem at a place of a file. -/
structure Finding where
  problem : Problem
  span : Span
  deriving DecidableEq, Repr

def Finding.toDiagnostic (finding : Finding) (file : String) : Diagnostic :=
  ⟨.error, finding.problem.code, finding.problem.message,
    some ⟨file, finding.span.start, finding.span.length⟩⟩

end VersionSweep
