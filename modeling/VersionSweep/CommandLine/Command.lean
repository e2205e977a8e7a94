import VersionSweep.CommandLine.Arguments
import VersionSweep.CommandLine.Disk
import VersionSweep.Config.Basic
import VersionSweep.Report.Regression

/-!
# The command

From the arguments, the files at hand and the standard input to what is printed.  The configuration
comes first; then the versions are listed if that is asked for; then the snippet is read and run.
-/

namespace VersionSweep

/-- Where the library files come from. -/
inductive LibrarySource where
  | bundled
  | folder (path : String)
  deriving DecidableEq, Repr

/-- What a run is set up with. -/
structure Setup where
  library : LibrarySource
  version : String
  defaultFileName : String
  shownDiagnostics : Nat
  deriving DecidableEq, Repr

/-- Where the snippet comes from. -/
inductive SnippetSource where
  | file (path : String)
  | stdin
  | clipboard
  deriving DecidableEq, Repr

/-- What a command ends with. -/
structure CommandResult where
  exit : Nat
  stdout : String
  /-- The line that tells why the command failed. -/
  message : Option String
  deriving DecidableEq, Repr

namespace CommandResult

def success (stdout : String) : CommandResult := ⟨0, stdout, none⟩

def failure (message : String) : CommandResult := ⟨1, "", some message⟩

def usageError : CommandResult := ⟨2, "", none⟩

end CommandResult

namespace Setup

/-- Whether a path is another spelling of the default library path: with slashes or dots behind. -/
def isDefaultPath (path : String) : Bool :=
  match Disk.parts path with
  | [] => false
  | first :: rest => first = Library.defaultPath && rest.all Disk.isStay

/-- The setup of a configuration.  The default library path stands for the bundled library. -/
def ofConfig (config : Config) : Setup where
  library :=
    if isDefaultPath config.libraryPath then .bundled else .folder config.libraryPath
  version := config.defaultVersion
  defaultFileName := config.defaultFileName
  shownDiagnostics := config.shownDiagnostics

def standard : Setup := ofConfig .standard

/-- What the arguments say goes before what the configuration says. -/
def override (setup : Setup) (arguments : Arguments) : Setup :=
  { setup with
    library := match arguments.libraryPath with
      | some path => .folder path
      | none => setup.library
    version := arguments.version.getD setup.version }

def resolve (disk : Disk) (arguments : Arguments) : Except Failure Setup :=
  match arguments.config with
  | none => .ok (standard.override arguments)
  | some path => (Config.load path (disk.read path)).map fun config ↦
      (ofConfig config).override arguments

end Setup

def LibrarySource.library (disk : Disk) : LibrarySource → Library
  | .bundled => .bundled
  | .folder path => disk.library path

namespace SnippetSource

def ofArguments (arguments : Arguments) : SnippetSource :=
  if arguments.stdin then .stdin
  else
    match arguments.file with
    | some path => .file path
    | none => .clipboard

def lastName? (path : String) : Option String :=
  match (Disk.place path).getLast? with
  | some name => if name = ".." then none else some name
  | none => none

def fileName (source : SnippetSource) (default : String) : String :=
  match source with
  | file path => (lastName? path).getD default
  | stdin => "stdin.ts"
  | clipboard => "clipboard.ts"

/-- The text that a reading gave, or the failure to tell of what was read. -/
def ofReading (name : String) : Except ReadFailure String → Except Failure (Option String)
  | .ok text => .ok (some text)
  | .error failure => .error (.input s!"{name}: {failure.reason}")

/-- The text of the snippet.  The clipboard never holds one. -/
def text (disk : Disk) (input : Except ReadFailure String) :
    SnippetSource → Except Failure (Option String)
  | file path => ofReading path (disk.read path)
  | stdin => ofReading "stdin" input
  | clipboard => .ok none

end SnippetSource

namespace Command

/-- A text with a line break behind it; nothing for an empty text. -/
def printed (text : String) : String :=
  if text = "" then "" else text ++ "\n"

def reportText (report : Report) (medium : Medium) (changesOnly : Bool) : Except String String :=
  if report.regression then
    .ok (if changesOnly then report.renderChanges medium else report.render medium)
  else
    match report.entries with
    | [] => .ok ""
    | entry :: _ =>
      match entry.run.outcome with
      | .failed error => .error error
      | .compiled _ _ => .ok (medium.literal entry.run.block)

def runSnippet (setup : Setup) (library : Library) (arguments : Arguments)
    (text fileName : String) : CommandResult :=
  match (Registry.standard library).sweepFrom setup.version with
  | .error failure => .failure failure.message
  | .ok versions =>
    let options : BlockOptions := ⟨some setup.shownDiagnostics, !arguments.errors⟩
    let report := Report.ofText versions arguments.regress options text fileName
    let medium := if arguments.markdown then Medium.markdown else Medium.console
    match reportText report medium arguments.diff with
    | .error message => .failure message
    | .ok text => .success (printed text)

/-- Run a command on a disk and on what the standard input holds. -/
def run (disk : Disk) (input : Except ReadFailure String) (arguments : Arguments) :
    CommandResult :=
  match Setup.resolve disk arguments with
  | .error failure => .failure failure.message
  | .ok setup =>
    let library := setup.library.library disk
    if arguments.listVersions then
      .success (String.join ((Registry.standard library).keys.map printed))
    else
      let source := SnippetSource.ofArguments arguments
      match source.text disk input with
      | .error failure => .failure failure.message
      | .ok none => .success "No input specified\n"
      | .ok (some text) =>
        runSnippet setup library arguments text (source.fileName setup.defaultFileName)

def usage : String :=
  "Usage: version-sweep [OPTIONS] [FILE]\n"

def stopped : Arguments.Stop → CommandResult
  | .help => .success usage
  | .usage _ => .usageError

def runArguments (disk : Disk) (input : Except ReadFailure String) (arguments : List String) :
    CommandResult :=
  match Arguments.parse arguments with
  | .ok arguments => run disk input arguments
  | .error stop => stopped stop

def firstPaths (arguments : Arguments) : List String :=
  arguments.config.toList ++ arguments.file.toList

/-- The names of the library files that a snippet can ask for: the standard ones, and those of its
own files that are spelled as library files. -/
def libraryNames (snippet : Snippet) : List String :=
  ["lib.d.ts", "lib.es2015.d.ts"] ++
    ((snippet.files.map Prod.fst).filter VirtualPath.isLibrary).map VirtualPath.baseName

/-- The paths of the library files that a command can read, once its first paths are read. -/
def libraryPaths (disk : Disk) (input : Except ReadFailure String) (arguments : Arguments) :
    List String :=
  match Setup.resolve disk arguments with
  | .error _ => []
  | .ok setup =>
    let source := SnippetSource.ofArguments arguments
    match setup.library, source.text disk input with
    | .folder path, .ok (some text) =>
      let snippet := Snippet.parse text (source.fileName setup.defaultFileName)
      (libraryNames snippet).map (Library.join path)
    | _, _ => []

end Command

end VersionSweep
