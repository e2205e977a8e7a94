import VersionSweep.Compiler.Target
import VersionSweep.Failure
import VersionSweep.Language.SourceFile
import VersionSweep.Library

/-!
# The project store

The files of a project in memory, known by their canonical paths.  Paths spelled with the library
folder in front are served from the library instead.  A file that was parsed once is handed out
again from then on, until it is replaced.  What a compiler writes is kept apart from the files,
under the paths as it spells them.
-/

namespace VersionSweep

/-- What the store keeps of a parsed file: the tree of a source file, or for a compiler that parses
by itself just its name and text. -/
inductive Handle where
  | parsed (file : SourceFile)
  | plain (name text : String)

namespace Handle

def name : Handle → String
  | parsed file => file.name
  | plain name _ => name

def text : Handle → String
  | parsed file => file.text
  | plain _ text => text

def target? : Handle → Option Int
  | parsed file => some file.target
  | plain _ _ => none

end Handle

/-- A handle with a number of its own: two requests are served by the same handle exactly if they
get the same number. -/
structure Issued where
  serial : Nat
  handle : Handle

/-- What a store does for its compiler: parse files and name the library file, or merely keep texts,
which go with the library file of the oldest language level. -/
inductive Services where
  | language
  | plainText
  deriving DecidableEq, Repr

namespace Services

def handle (services : Services) (name text : String) (target : Int) : Handle :=
  match services with
  | language => .parsed (SourceFile.parse name text target)
  | plainText => .plain name text

def libraryName (services : Services) (settings : Assignment) : String :=
  match services with
  | language => Target.libraryName settings
  | plainText => "lib.d.ts"

end Services

structure Store where
  services : Services
  library : Library
  /-- Texts by canonical path. -/
  files : OrderedMap String
  /-- Handles by the paths under which they are kept. -/
  handles : OrderedMap Issued
  /-- Written texts by path as spelled. -/
  outputs : OrderedMap String
  /-- The number of handles made so far. -/
  issued : Nat

namespace Store

def empty (services : Services) (library : Library) : Store :=
  ⟨services, library, .empty, .empty, .empty, 0⟩

/-- Add a file or replace it.  A handle for its old text is forgotten. -/
def addFile (store : Store) (path text : String) : Store :=
  let key := VirtualPath.canonical path
  { store with files := store.files.insert key text, handles := store.handles.erase key }

def readLibrary (store : Store) (path : String) : Except Failure String :=
  let name := VirtualPath.baseName path
  match store.library.read name with
  | .ok text => .ok text
  | .error failure =>
    .error (.libraryRead (Library.join store.library.path name) failure.reason)

def textOf (store : Store) (path : String) : Except Failure String :=
  if VirtualPath.isLibrary path then store.readLibrary path
  else
    match store.files.get? (VirtualPath.canonical path) with
    | some text => .ok text
    | none => .error (.missingVirtualFile (VirtualPath.canonical path))

theorem textOf_of_isLibrary_eq_false {store : Store} {path : String}
    (h : VirtualPath.isLibrary path = false) :
    store.textOf path =
      match store.files.get? (VirtualPath.canonical path) with
      | some text => .ok text
      | none => .error (.missingVirtualFile (VirtualPath.canonical path)) :=
  if_neg (by rw [h]; decide)

def sourceText (store : Store) (path : String) : Option String :=
  match store.textOf path with
  | .ok text => some text
  | .error _ => none

/-- Whether a path has a file.  Every path spelled with the library folder counts as having one. -/
def fileExists (store : Store) (path : String) : Bool :=
  VirtualPath.isLibrary path || store.files.contains (VirtualPath.canonical path)

/-- The path under which the handle for a path is kept. -/
def handleKey (path : String) : String :=
  if VirtualPath.isLibrary path then
    String.ofList (VirtualPath.forwardSlashes path.toList)
  else VirtualPath.canonical path

/-- The handle for a path.  A handle that is kept serves all spellings and language levels. -/
def sourceHandle (store : Store) (path : String) (target : Int) :
    Except Failure (Issued × Store) :=
  match store.handles.get? (handleKey path) with
  | some issued => .ok (issued, store)
  | none =>
    match store.textOf path with
    | .error failure => .error failure
    | .ok text =>
      let issued : Issued := ⟨store.issued, store.services.handle path text target⟩
      .ok (issued, { store with
        handles := store.handles.insert (handleKey path) issued, issued := store.issued + 1 })

/-- A request that succeeds gives the handle that is kept for the path, or a new one for the text of
the path, which is kept from then on. -/
theorem sourceHandle_cases {store next : Store} {path : String} {target : Int} {issued : Issued}
    (h : store.sourceHandle path target = .ok (issued, next)) :
    (store.handles.get? (handleKey path) = some issued ∧ next = store) ∨
    ∃ text, store.handles.get? (handleKey path) = none ∧ store.textOf path = .ok text ∧
      issued = ⟨store.issued, store.services.handle path text target⟩ ∧
      next = { store with
        handles := store.handles.insert (handleKey path) issued, issued := store.issued + 1 } := by
  unfold sourceHandle at h
  split at h
  · rename_i kept hkept
    obtain ⟨rfl, rfl⟩ := Prod.mk.inj (Except.ok.inj h)
    exact .inl ⟨hkept, rfl⟩
  · rename_i hnone
    split at h
    · cases h
    · rename_i text htext
      obtain ⟨rfl, rfl⟩ := Prod.mk.inj (Except.ok.inj h)
      exact .inr ⟨text, hnone, htext, rfl, rfl⟩

/-- Keep what a compiler writes; the last text for a path counts. -/
def putOutput (store : Store) (path text : String) : Store :=
  { store with outputs := store.outputs.insert path text }

def defaultLibrary (store : Store) (settings : Assignment) : String :=
  VirtualPath.libraryFolder ++ store.services.libraryName settings

def currentFolder : String := VirtualPath.projectFolder

def newLine : String := "\r\n"

/-- Paths that differ in the case of letters are different paths. -/
def caseSensitive : Bool := true

/-- The folders inside a folder.  A project is not searched for files, so none are listed. -/
def subfolders (_path : String) : List String := []

end Store

end VersionSweep
