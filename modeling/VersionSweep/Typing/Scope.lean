import VersionSweep.OrderedMap
import VersionSweep.Project.Unit
import VersionSweep.Typing.BasicType

/-!
# Scopes

A scope gives each name the symbols that declare it, in the order of declaration.  All units that
are no modules share the global scope, the library among them; each module has a scope of its own
behind which the global one stands.
-/

namespace VersionSweep

/-- What declares a name. -/
inductive SymbolRole where
  | declared (keyword : VarKeyword)
  | imported
  deriving DecidableEq, Repr

/-- One declaration of a name: what it says, and where it stands. -/
structure Symbol where
  role : SymbolRole
  type : BasicType
  exported : Bool
  unit : Nat
  statement : Nat
  span : Span
  deriving DecidableEq, Repr

namespace Symbol

def isImport (symbol : Symbol) : Bool :=
  symbol.role == .imported

def isVariable (symbol : Symbol) : Bool :=
  !symbol.isImport

/-- Whether the name may be declared only once because of this symbol. -/
def isBlockScoped (symbol : Symbol) : Bool :=
  match symbol.role with
  | .declared keyword => keyword.isBlockScoped
  | .imported => false

end Symbol

/-- The type of a declaration before its value has been looked at: the annotation, or the type of a
value that is a bare literal. -/
def VarDecl.declaredType (decl : VarDecl) : BasicType :=
  match decl.annotation with
  | some annotation => (BasicType.ofWord? annotation.text).getD .any
  | none =>
    match decl.init with
    | some (.number _ _) => .number
    | some (.string _ _) => .string
    | some (.bool _ _) => .boolean
    | _ => .any

def Statement.symbols (unit statement : Nat) : Statement → List (String × Symbol)
  | .var decl =>
    [(decl.name.text, ⟨.declared decl.keyword, decl.declaredType, decl.exported, unit, statement,
      decl.name.span⟩)]
  | .importNames decl =>
    decl.names.map fun name ↦ (name.text, ⟨.imported, .any, false, unit, statement, name.span⟩)
  | .expr _ _ => []

def SourceUnit.symbols (index : Nat) (unit : SourceUnit) : List (String × Symbol) :=
  unit.numbered.flatMap fun (statement, number) ↦ statement.symbols index number

abbrev Scope : Type := OrderedMap (List Symbol)

namespace Scope

def declare (scope : Scope) (name : String) (symbol : Symbol) : Scope :=
  scope.insert name ((scope.get? name).getD [] ++ [symbol])

def ofSymbols (symbols : List (String × Symbol)) : Scope :=
  symbols.foldl (fun scope entry ↦ scope.declare entry.1 entry.2) .empty

/-- Give the symbols of a name that one statement declares a new type. -/
def setType (scope : Scope) (unit statement : Nat) (name : String) (type : BasicType) : Scope :=
  match scope.get? name with
  | none => scope
  | some symbols =>
    scope.insert name (symbols.map fun symbol ↦
      if symbol.unit = unit ∧ symbol.statement = statement then { symbol with type } else symbol)

end Scope

/-- The global scope and the scopes of the modules, by number of unit. -/
structure Scopes where
  global : Scope
  modules : List (Nat × Scope)

namespace Scopes

def ofUnits (units : List SourceUnit) : Scopes where
  global := .ofSymbols (units.zipIdx.flatMap fun (unit, index) ↦
    if unit.isModule then [] else unit.symbols index)
  modules := units.zipIdx.filterMap fun (unit, index) ↦
    if unit.isModule then some (index, .ofSymbols (unit.symbols index)) else none

def all (scopes : Scopes) : List Scope :=
  scopes.global :: scopes.modules.map Prod.snd

def module? (scopes : Scopes) (unit : Nat) : Option Scope :=
  scopes.modules.lookup unit

/-- The first symbol that a name in a unit refers to: one of the unit's own scope if it is a module
and declares the name, else a global one. -/
def symbol? (scopes : Scopes) (unit : Nat) (name : String) : Option Symbol :=
  match (scopes.module? unit).bind fun scope ↦ scope.get? name with
  | some symbols => symbols.head?
  | none => (scopes.global.get? name).bind List.head?

def type? (scopes : Scopes) (unit : Nat) (name : String) : Option BasicType :=
  (scopes.symbol? unit name).map Symbol.type

def export? (scopes : Scopes) (unit : Nat) (name : String) : Option Symbol :=
  ((scopes.module? unit).bind fun scope ↦ scope.get? name).bind fun symbols ↦
    symbols.find? fun symbol ↦ symbol.exported && symbol.isVariable

/-- Give the symbols of a name that one statement of a unit declares a new type. -/
def setType (scopes : Scopes) (unit statement : Nat) (name : String) (type : BasicType) : Scopes :=
  if (scopes.module? unit).isSome then
    { scopes with modules := scopes.modules.map fun (index, scope) ↦
        (index, if index = unit then scope.setType unit statement name type else scope) }
  else { scopes with global := scopes.global.setType unit statement name type }

end Scopes

end VersionSweep
