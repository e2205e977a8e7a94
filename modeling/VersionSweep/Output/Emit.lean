import VersionSweep.Output.Declarations
import VersionSweep.Output.Script
import VersionSweep.Project.Store
import VersionSweep.Project.Unit

/-!
# Writing of output

For each unit that is neither a library nor a declaration file a script is written, and if asked for
a declaration file.  Nothing is written over a file that exists; this is reported instead.
-/

namespace VersionSweep.Emit

/-- A text without one of two endings, the first being tried first. -/
def dropEnding (endings : List String) (name : String) : String :=
  match endings with
  | [] => name
  | ending :: rest =>
    match VirtualPath.dropBeginning? ending.toList.reverse name.toList.reverse with
    | some stem => String.ofList stem.reverse
    | none => dropEnding rest name

def dropSlashes (folder : String) : String :=
  String.ofList (folder.toList.reverse.dropWhile (· = '/')).reverse

/-- The path of what is made from a file: beside it, or in the output folder by its bare name. -/
def outputPath (name extension : String) (folder : Option String) : String :=
  let stem := dropEnding [".tsx", ".ts"] name
  match folder with
  | some folder => dropSlashes folder ++ "/" ++ VirtualPath.baseName stem ++ extension
  | none => stem ++ extension

/-- A file that is made from a unit. -/
structure Artifact where
  path : String
  text : String
  deriving DecidableEq, Repr

def unitArtifacts (settings : Assignment) (typeOf : Nat → Option BasicType) (unit : SourceUnit) :
    List Artifact :=
  if unit.isLibrary || unit.file.isDeclarationFile then []
  else
    let layout := Layout.ofSettings settings Store.newLine
    let folder := settings.string? "outDir"
    ⟨outputPath unit.file.name ".js" folder, layout.script unit.file⟩ ::
      if settings.flag "declaration" then
        [⟨outputPath unit.file.name ".d.ts" folder, layout.declarations unit.file typeOf⟩]
      else []

/-- What is made from the units, given the types of their declarations. -/
def artifacts (units : List SourceUnit) (types : List ((Nat × Nat) × BasicType))
    (settings : Assignment) : List Artifact :=
  if settings.flag "noEmit" then []
  else
    units.zipIdx.flatMap fun (unit, index) ↦
      unitArtifacts settings (fun statement ↦ types.lookup (index, statement)) unit

/-- Write a file unless one exists at its path. -/
def write (artifact : Artifact) (store : Store) : Store × List Diagnostic :=
  if store.fileExists artifact.path then
    (store,
      [(Problem.wouldOverwriteInput (VirtualPath.canonical artifact.path)).toDiagnostic])
  else (store.putOutput artifact.path artifact.text, [])

def writeAll (store : Store) : List Artifact → Store × List Diagnostic
  | [] => (store, [])
  | artifact :: rest =>
    let (store, diagnostics) := write artifact store
    let (store, more) := writeAll store rest
    (store, diagnostics ++ more)

end VersionSweep.Emit
