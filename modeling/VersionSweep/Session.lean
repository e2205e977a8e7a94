import VersionSweep.Compiler.Basic
import VersionSweep.Compiler.Interface
import VersionSweep.Diagnostic.Excerpt
import VersionSweep.Project.Program
import VersionSweep.Snippet.Collector

/-!
# Sessions

A session is made for one compiler version and has a project store of its own.  Its diagnostics are
shown with excerpts from that store.
-/

namespace VersionSweep

/-- A compiler version as sessions know it. -/
def Compiler.interface (compiler : Compiler) : CompilerInterface Store where
  declared := compiler.declared
  defaultSettings := compiler.defaultSettings
  addFile := Store.addFile
  compile roots settings store :=
    match Program.make compiler.dialect roots settings store with
    | .error interruption => (.error interruption.failure, interruption.store)
    | .ok (program, store) =>
      let (store, diagnostics) := program.diagnose store
      (.ok ⟨store.outputs, diagnostics⟩, store)

structure Session extends state : CompilerInterface.Session Store where
  /-- The key of the version that the session was made for. -/
  label : String
  compiler : Compiler

namespace Session

def start (label : String) (compiler : Compiler) (library : Library) : Session :=
  ⟨compiler.interface.start (.empty .language library), label, compiler⟩

def addRoot (session : Session) (path text : String) : Session :=
  { session with state := session.compiler.interface.addRoot session.state path text }

def addExtra (session : Session) (path text : String) : Session :=
  { session with state := session.compiler.interface.addExtra session.state path text }

def set (session : Session) (name raw : String) : Except Failure Session :=
  (session.compiler.interface.set session.state name raw).map fun state ↦
    { session with state }

def load (session : Session) (snippet : Snippet) : Snippet.Replay Session :=
  let replay := snippet.replay session.compiler.interface.target session.state
  ⟨{ session with state := replay.state }, replay.failure⟩

def compile (session : Session) : Except Failure Compilation × Session :=
  let (outcome, state) := session.compiler.interface.compileOnce session.state
  (outcome, { session with state })

/-- Diagnostics as text, with excerpts from the files of the session. -/
def render (session : Session) (diagnostics : List Diagnostic) : List String :=
  diagnostics.map fun diagnostic ↦
    diagnostic.render (diagnostic.location.bind fun location ↦
      session.store.sourceText location.file)

end Session

end VersionSweep
