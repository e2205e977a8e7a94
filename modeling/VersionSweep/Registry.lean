import VersionSweep.Session

/-!
# Registry of versions

The versions at hand under their keys, in the order in which they were registered.  A sweep runs
them all, beginning with one of them and going through the others in order.
-/

namespace VersionSweep

/-- What is needed to make sessions for one version. -/
structure Version where
  /-- The key under which the version is registered. -/
  label : String
  compiler : Compiler
  library : Library

def Version.session (version : Version) : Session :=
  .start version.label version.compiler version.library

/-- Versions by key. -/
structure Registry where
  versions : OrderedMap Version

namespace Registry

def empty : Registry := ⟨.empty⟩

def keys (registry : Registry) : List String :=
  registry.versions.keys

def all (registry : Registry) : List Version :=
  registry.versions.values

/-- Register a version under a key that is free. -/
def register (registry : Registry) (key : String) (compiler : Compiler) (library : Library) :
    Except Failure Registry :=
  if registry.versions.contains key then .error (.duplicateVersion key)
  else .ok ⟨registry.versions.insert key ⟨key, compiler, library⟩⟩

/-- The versions that come with the program, newest first, with the library they share. -/
def standard (library : Library) : Registry :=
  ⟨OrderedMap.ofList
    ([("latest", "3.0.0"), ("2.0.0", "2.0.0"), ("1.0.0", "1.0.0")].map fun (key, version) ↦
      (key, ⟨key, ⟨version⟩, library⟩))⟩

def lookup (registry : Registry) (key : String) : Except Failure Version :=
  match registry.versions.get? key with
  | some version => .ok version
  | none => .error (.unsupportedVersion key registry.keys)

def createSession (registry : Registry) (key : String) : Except Failure Session :=
  (registry.lookup key).map Version.session

/-- One version and then all others in order. -/
def sweepFrom (registry : Registry) (first : String) : Except Failure (List Version) :=
  match registry.lookup first with
  | .error failure => .error failure
  | .ok version =>
    .ok (version :: ((registry.versions.entries.filter fun entry ↦ entry.1 ≠ first).map Prod.snd))

end Registry

end VersionSweep
