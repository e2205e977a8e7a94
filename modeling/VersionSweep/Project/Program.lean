import VersionSweep.Compiler.Dialect
import VersionSweep.Output.Emit
import VersionSweep.Typing.Checking

/-!
# Programs

A program is made of the library file, the root files and all files that these import, directly or
through others.  Files are loaded breadth first and each one once, by its canonical path.  What can
stop the loading is a root or library file that cannot be read; an import that leads nowhere is
merely left open.
-/

namespace VersionSweep

/-- A file that a program needs: the name it is asked for by, and its canonical path. -/
structure Request where
  name : String
  key : String
  deriving DecidableEq, Repr

/-- A loaded file, with the canonical paths that its imports lead to by number of statement. -/
structure Loaded where
  file : SourceFile
  key : String
  isLibrary : Bool
  targets : List (Nat × String)

/-- Loaded files in the order of loading, and the store that served them. -/
structure Loading where
  store : Store
  loaded : List Loaded

/-- What stops a loading.  The store that is left keeps what was parsed before. -/
structure Interruption where
  failure : Failure
  store : Store

namespace Loading

def has (state : Loading) (request : Request) : Bool :=
  state.loaded.any fun file ↦ file.key = request.key

/-- A source file from the store, parsed here if the store keeps plain texts. -/
def source (store : Store) (name : String) (target : Int) :
    Except Failure (SourceFile × Store) :=
  match store.sourceHandle name target with
  | .error failure => .error failure
  | .ok (issued, store) =>
    match issued.handle with
    | .parsed file => .ok (file, store)
    | .plain name text => .ok (SourceFile.parse name text target, store)

/-- The paths at which the file of a relative specifier may be, seen from a folder. -/
def candidates (folder specifier : String) : List String :=
  let base := folder ++ specifier
  if ".ts".toList.isSuffixOf specifier.toList then [base] else [base ++ ".ts", base ++ ".d.ts"]

def isRelative (specifier : String) : Bool :=
  "./".toList.isPrefixOf specifier.toList || "../".toList.isPrefixOf specifier.toList

/-- The canonical path of the file that a specifier leads to from the file at `importer`. -/
def resolve? (store : Store) (importer specifier : String) : Option String :=
  if isRelative specifier then
    ((candidates (VirtualPath.folder importer) specifier).map VirtualPath.canonical).find?
      fun key ↦ !VirtualPath.isLibrary key && store.fileExists key
  else none

def targets (store : Store) (key : String) (file : SourceFile) : List (Nat × String) :=
  file.statements.zipIdx.filterMap fun (statement, number) ↦
    match statement with
    | .importNames decl => (resolve? store key decl.specifier).map fun target ↦ (number, target)
    | _ => none

def load (target : Int) (state : Loading) (request : Request) :
    Except Failure (Loading × List Request) :=
  match source state.store request.name target with
  | .error failure => .error failure
  | .ok (file, store) =>
    let targets := targets store request.key file
    .ok (⟨store, state.loaded ++ [⟨file, request.key, false, targets⟩]⟩,
      targets.map fun entry ↦ ⟨VirtualPath.displayName entry.2, entry.2⟩)

/-- Load the files of the requests and all that they import.  Each round loads a new file, so the
number of files that can be asked for bounds the number of rounds. -/
def loadAll (target : Int) : Nat → Loading → List Request → Except Interruption Loading
  | 0, state, _ => .ok state
  | rounds + 1, state, queue =>
    match queue.dropWhile state.has with
    | [] => .ok state
    | request :: rest =>
      match load target state request with
      | .error failure => .error ⟨failure, state.store⟩
      | .ok (state, more) => loadAll target rounds state (rest ++ more)

/-- Load the library file, unless the settings do without. -/
def loadLibrary (settings : Assignment) (store : Store) : Except Failure Loading :=
  if settings.flag "noLib" then .ok ⟨store, []⟩
  else
    let path := store.defaultLibrary settings
    match source store path (Target.ofSettings settings) with
    | .error failure => .error failure
    | .ok (file, store) => .ok ⟨store, [⟨file, path, true, []⟩]⟩

/-- The units that loaded files make, their imports being led to the units by canonical path. -/
def units (state : Loading) : List SourceUnit :=
  state.loaded.map fun file ↦
    { file := file.file
      key := file.key
      isLibrary := file.isLibrary
      imports := file.targets.filterMap fun (statement, target) ↦
        (state.loaded.findIdx? fun other ↦ other.key = target).map fun index ↦
          (statement, index) }

end Loading

/-- A checked program. -/
structure Program where
  settings : Assignment
  units : List SourceUnit
  checked : Checked

namespace Program

/-- Load what roots need and check it. -/
def make (dialect : Dialect) (roots : List String) (settings : Assignment) (store : Store) :
    Except Interruption (Program × Store) :=
  match Loading.loadLibrary settings store with
  | .error failure => .error ⟨failure, store⟩
  | .ok state =>
    let requests := roots.map fun root ↦ ⟨root, VirtualPath.canonical root⟩
    let rounds := store.files.size + roots.length + 1
    match Loading.loadAll (Target.ofSettings settings) rounds state requests with
    | .error interruption => .error interruption
    | .ok state =>
      let units := state.units
      .ok (⟨settings, units, Checking.check units settings dialect⟩, state.store)

/-- What `make` comes to, without the store that is left when there is no program. -/
def build (dialect : Dialect) (roots : List String) (settings : Assignment) (store : Store) :
    Except Failure (Program × Store) :=
  (make dialect roots settings store).mapError Interruption.failure

theorem build_eq_ok_iff {dialect : Dialect} {roots : List String} {settings : Assignment}
    {store : Store} {made : Program × Store} :
    build dialect roots settings store = .ok made ↔
      make dialect roots settings store = .ok made := by
  unfold build
  cases make dialect roots settings store with
  | ok made => exact ⟨fun h ↦ congrArg _ (Except.ok.inj h), fun h ↦ congrArg _ (Except.ok.inj h)⟩
  | error interruption => exact ⟨nofun, nofun⟩

def sources (program : Program) : List SourceUnit :=
  program.units.filter fun unit ↦ !unit.isLibrary

def syntactic (program : Program) : List Diagnostic :=
  program.sources.flatMap fun unit ↦ unit.file.diagnostics

def semantic (program : Program) : List Diagnostic :=
  program.checked.diagnostics

def globalTypes : List String :=
  ["Array", "Boolean", "Function", "IArguments", "Number", "Object", "RegExp", "String"]

def global (program : Program) : List Diagnostic :=
  if program.settings.flag "noLib" then
    globalTypes.map fun name ↦ (Problem.missingGlobalType name).toDiagnostic
  else []

/-- Whether a variable has a type that cannot be told from its declaration alone. -/
def needsAnnotation (decl : VarDecl) : Bool :=
  decl.exported && !decl.ambient && decl.annotation.isNone &&
    match decl.init with
    | some init => !init.isLiteral
    | none => false

def unannotated (unit : SourceUnit) : List Diagnostic :=
  unit.file.statements.filterMap fun
    | .var decl =>
      if needsAnnotation decl then
        some (Finding.toDiagnostic ⟨.annotationRequired, decl.name.span⟩ unit.file.name)
      else none
    | _ => none

/-- What stands in the way of declarations that are made from each file by itself. -/
def declaration (program : Program) : List Diagnostic :=
  if program.settings.flag "declaration" && program.settings.flag "isolatedDeclarations" then
    (program.sources.filter fun unit ↦ !unit.file.isDeclarationFile).flatMap unannotated
  else []

def options (program : Program) : List Diagnostic :=
  (if program.settings.flag "declaration" && program.settings.flag "noEmit" then
    [Problem.declarationWithoutEmit.toDiagnostic]
  else []) ++
  (if program.settings.flag "isolatedDeclarations" && !program.settings.flag "declaration" then
    [Problem.isolatedWithoutDeclaration.toDiagnostic]
  else [])

/-- Write what the program makes, and tell what could not be written. -/
def emit (program : Program) (store : Store) : Store × List Diagnostic :=
  Emit.writeAll store
    (Emit.artifacts program.units program.checked.types program.settings)

/-- All diagnostics of a program, and the store after its files were written. -/
def diagnose (program : Program) (store : Store) : Store × List Diagnostic :=
  let (store, written) := program.emit store
  (store, program.syntactic ++ program.semantic ++ program.global ++ program.declaration ++
    program.options ++ written)

end Program

end VersionSweep
