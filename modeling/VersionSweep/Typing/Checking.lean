import VersionSweep.Setting.Assignment
import VersionSweep.Typing.Expression
import VersionSweep.Typing.Scope

/-!
# Checking of programs

A program is checked in four passes over its units: all declarations make the scopes, imports take
the types of what they import, names that are declared more than once are reported, and then each
statement of each unit but the library is checked in order.  A checked variable has its final type
from then on.  The order in which the scopes of the modules are visited makes no difference, since
the findings of a unit are put in the order of their places at the end.
-/

namespace VersionSweep

/-- Where a check stands: the scopes, what was found in which unit, and the types of the variable
declarations so far, by number of unit and of statement. -/
structure Checking where
  scopes : Scopes
  found : List (Nat × Finding)
  types : List ((Nat × Nat) × BasicType)

/-- What a check gives: the findings of each unit by place, and the types of the declarations. -/
structure Checked where
  diagnostics : List Diagnostic
  types : List ((Nat × Nat) × BasicType)

namespace Checking

def report (state : Checking) (unit : Nat) (findings : List Finding) : Checking :=
  { state with found := state.found ++ findings.map fun finding ↦ (unit, finding) }

/-- Take the type of what one name of an import imports, or report that there is nothing. -/
def importName (unit statement target : Nat) (specifier : String) (state : Checking)
    (name : Ident) : Checking :=
  match state.scopes.export? target name.text with
  | some symbol =>
    { state with scopes := state.scopes.setType unit statement name.text symbol.type }
  | none => state.report unit [⟨.noSuchExport specifier name.text, name.span⟩]

/-- Resolve an import.  Loading leads every import to one of the units or nowhere, so the check of a
loaded program never meets a number that no unit has. -/
def resolveImport (units : List SourceUnit) (index : Nat) (unit : SourceUnit) (state : Checking) :
    Statement × Nat → Checking
  | (.importNames decl, statement) =>
    match unit.import? statement with
    | none => state.report index [⟨.moduleNotFound decl.specifier, decl.specifierSpan⟩]
    | some target =>
      match units[target]? with
      | none => state
      | some found =>
        if found.isModule then
          decl.names.foldl (importName index statement target decl.specifier) state
        else state.report index [⟨.notAModule found.key, decl.specifierSpan⟩]
  | _ => state

def resolveImports (units : List SourceUnit) (state : Checking) : Checking :=
  units.zipIdx.foldl (fun state (unit, index) ↦
    unit.numbered.foldl (resolveImport units index unit) state) state

end Checking

/-- What is reported about a name with several symbols in one scope, and about which symbols. -/
def Scope.redeclarations (name : String) (symbols : List Symbol) : List (Symbol × Problem) :=
  let imports := symbols.filter Symbol.isImport
  let declared := symbols.filter Symbol.isVariable
  if symbols.length ≤ 1 then []
  else if !imports.isEmpty && !declared.isEmpty then
    imports.map fun symbol ↦ (symbol, .importConflict name)
  else if imports.length > 1 then
    imports.map fun symbol ↦ (symbol, .duplicateImport name)
  else if declared.any Symbol.isBlockScoped then
    declared.map fun symbol ↦ (symbol, .redeclaration name)
  else []

def Scope.allRedeclarations (scopes : List Scope) : List (Nat × Finding) :=
  scopes.flatMap fun scope ↦
    scope.entries.flatMap fun (name, symbols) ↦
      (redeclarations name symbols).map fun (symbol, problem) ↦
        (symbol.unit, ⟨problem, symbol.span⟩)

namespace VarDecl

/-- The type that an annotation gives, an unknown one giving `any`. -/
def annotatedType (decl : VarDecl) : Option BasicType :=
  decl.annotation.map fun annotation ↦ (BasicType.ofWord? annotation.text).getD .any

def headFindings (implicitAny : Bool) (decl : VarDecl) : List Finding :=
  let annotation := match decl.annotation with
    | some annotation =>
      if (BasicType.ofWord? annotation.text).isNone then
        [⟨.unknownName annotation.text, annotation.span⟩]
      else []
    | none => []
  let constant :=
    if decl.keyword = .const ∧ decl.init.isNone ∧ ¬ decl.ambient then
      [⟨.constantWithoutValue, decl.name.span⟩]
    else []
  let untyped :=
    if decl.ambient ∧ decl.annotation.isNone ∧ implicitAny then
      [⟨.implicitAny decl.name.text, decl.name.span⟩]
    else []
  annotation ++ constant ++ untyped

/-- The type of a declaration's value and the findings in it.  A declaration of something that
exists elsewhere must not have a value, and the value is not looked at then. -/
def valueTyping (typeOf : String → Option BasicType) (decl : VarDecl) :
    Option ExprType × List Finding :=
  match decl.init with
  | none => (none, [])
  | some init =>
    if decl.ambient then (none, [⟨.ambientInitializer, init.span⟩])
    else
      let (type, findings) := init.typing typeOf
      (some type, findings)

/-- What is wrong with the value of a declaration for its annotation. -/
def assignmentFindings (dialect : Dialect) (value : Option ExprType) (decl : VarDecl) :
    List Finding :=
  match decl.annotatedType, value, decl.init with
  | some target, some source, some init =>
    if source.type.assignableTo target then []
    else [⟨.notAssignable (source.describe dialect) target.word, init.span⟩]
  | _, _, _ => []

/-- The type of a declared variable: its annotation, else that of its value, else `any`. -/
def checkedType (value : Option ExprType) (decl : VarDecl) : BasicType :=
  match decl.annotatedType, value with
  | some type, _ => type
  | none, some source => source.type
  | none, none => .any

end VarDecl

namespace Checking

/-- Check a variable declaration and give the variable its final type. -/
def checkVar (dialect : Dialect) (implicitAny : Bool) (unit statement : Nat) (state : Checking)
    (decl : VarDecl) : Checking :=
  let (value, findings) := decl.valueTyping (state.scopes.type? unit)
  let type := decl.checkedType value
  { state.report unit
      (decl.headFindings implicitAny ++ findings ++ decl.assignmentFindings dialect value) with
    scopes := state.scopes.setType unit statement decl.name.text type
    types := state.types ++ [((unit, statement), type)] }

def checkStatement (dialect : Dialect) (implicitAny : Bool) (unit : Nat) (state : Checking) :
    Statement × Nat → Checking
  | (.var decl, statement) => state.checkVar dialect implicitAny unit statement decl
  | (.expr value _, _) => state.report unit (value.typing (state.scopes.type? unit)).2
  | (.importNames _, _) => state

def checkUnits (dialect : Dialect) (implicitAny : Bool) (units : List SourceUnit)
    (state : Checking) : Checking :=
  units.zipIdx.foldl (fun state (unit, index) ↦
    if unit.isLibrary then state
    else unit.numbered.foldl (checkStatement dialect implicitAny index) state) state

/-- The diagnostics of the units, the library excepted: unit after unit, each by place. -/
def diagnostics (units : List SourceUnit) (state : Checking) : List Diagnostic :=
  units.zipIdx.flatMap fun (unit, index) ↦
    if unit.isLibrary then []
    else
      let findings := state.found.filterMap fun (owner, finding) ↦
        if owner = index then some finding else none
      (Finding.sort findings).map fun finding ↦ finding.toDiagnostic unit.file.name

/-- Whether variables without a type are to be reported: as the setting for it says, else as the
setting for strictness does. -/
def reportsImplicitAny (settings : Assignment) : Bool :=
  match settings.get? "noImplicitAny" with
  | some (.bool value) => value
  | _ => settings.flag "strict"

/-- Check units, visiting the scopes for redeclared names in the order that `visit` gives. -/
def checkVisiting (visit : Scopes → List Scope) (units : List SourceUnit) (settings : Assignment)
    (dialect : Dialect) : Checked :=
  let bound : Checking := ⟨.ofUnits units, [], []⟩
  let resolved := bound.resolveImports units
  let redeclared : Checking :=
    { resolved with found := resolved.found ++ Scope.allRedeclarations (visit resolved.scopes) }
  let checked := redeclared.checkUnits dialect (reportsImplicitAny settings) units
  ⟨checked.diagnostics units, checked.types⟩

def check (units : List SourceUnit) (settings : Assignment) (dialect : Dialect) : Checked :=
  checkVisiting Scopes.all units settings dialect

end Checking

end VersionSweep
