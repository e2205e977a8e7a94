import VersionSweep.Diagnostic
import VersionSweep.Setting.Assignment
import VersionSweep.Setting.Catalog
import VersionSweep.Snippet.Entry

/-!
# Sessions with a compiler

A session is one compiler with one store.  Files and settings are put in, then the session compiles,
once and never again, whether that goes well or not.  A session knows its compiler by the settings
that it declares and by what it does on a store, so the store may be of any kind.
-/

namespace VersionSweep

/-- What a compilation gives: written files and diagnostics. -/
structure Compilation where
  outputs : OrderedMap String
  diagnostics : List Diagnostic

/-- A compiler as sessions know it, with the store it works on. -/
structure CompilerInterface (σ : Type) where
  declared : List Setting
  defaultSettings : Assignment
  addFile : σ → String → String → σ
  compile : List String → Assignment → σ → Except Failure Compilation × σ

namespace CompilerInterface

/-- What a session keeps besides its compiler. -/
structure Session (σ : Type) where
  store : σ
  /-- The root files in the order in which they were added. -/
  roots : List String
  settings : Assignment
  flags : SweepFlags
  compiled : Bool

variable {σ : Type} (interface : CompilerInterface σ)

def catalog : Catalog := .ofList interface.declared

def start (store : σ) : Session σ :=
  ⟨store, [], interface.defaultSettings, .none, false⟩

/-- Add a file that is part of the program only if it is imported. -/
def addExtra (session : Session σ) (path text : String) : Session σ :=
  { session with store := interface.addFile session.store path text }

def addRoot (session : Session σ) (path text : String) : Session σ :=
  { interface.addExtra session path text with roots := session.roots ++ [path] }

/-- Set a setting from its text: one of the sweep if the name is reserved, else one of those that
the compiler declares. -/
def set (session : Session σ) (name raw : String) : Except Failure (Session σ) :=
  match session.flags.setReserved? name raw with
  | some (.ok flags) => .ok { session with flags }
  | some (.error failure) => .error failure
  | none =>
    match interface.catalog.lookup name with
    | none => .error (.unknownOption name)
    | some setting =>
      match setting.read raw with
      | .error failure => .error failure
      | .ok value => .ok { session with settings := session.settings.set setting.name value }

def target : SnippetTarget (Session σ) where
  addFile name content session := interface.addRoot session name content
  set name raw session := interface.set session name raw

/-- Compile, unless the session has compiled before. -/
def compileOnce (session : Session σ) : Except Failure Compilation × Session σ :=
  if session.compiled then (.error .sessionConsumed, session)
  else
    let (outcome, store) := interface.compile session.roots session.settings session.store
    (outcome, { session with store, compiled := true })

theorem compileOnce_of_compiled {session : Session σ} (h : session.compiled = true) :
    interface.compileOnce session = (.error .sessionConsumed, session) :=
  if_pos h

theorem compileOnce_of_fresh {session : Session σ} (h : session.compiled = false) :
    interface.compileOnce session =
      ((interface.compile session.roots session.settings session.store).1,
        { session with
          store := (interface.compile session.roots session.settings session.store).2
          compiled := true }) := by
  rw [compileOnce, if_neg (by rw [h]; decide)]

end CompilerInterface

end VersionSweep
