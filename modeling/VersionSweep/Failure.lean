/-!
# Failures

What can stop a run.  A finding of the compiler about the snippet under test is not a failure: it
is data of the run and has its own type.
-/

namespace VersionSweep

/-- The causes that stop a run. -/
inductive Failure where
  /-- No version is known under the requested key; the known keys follow in their order. -/
  | unsupportedVersion (requested : String) (known : List String)
  /-- A version key was taken already. -/
  | duplicateVersion (key : String)
  /-- A setting that neither the sweep nor the compiler knows. -/
  | unknownOption (name : String)
  /-- A text that is no value of the setting's kind. -/
  | invalidOptionValue (name value expected : String)
  /-- A project file that was never added. -/
  | missingVirtualFile (path : String)
  /-- A library file that could not be read. -/
  | libraryRead (path reason : String)
  /-- A session that has compiled before. -/
  | sessionConsumed
  /-- Input that could not be had. -/
  | input (reason : String)
  deriving DecidableEq, Repr

namespace Failure

def invalidChoice (name value : String) (allowed : List String) : Failure :=
  .invalidOptionValue name value
    ("one of: " ++ ", ".intercalate (allowed.map fun choice ↦ "'" ++ choice ++ "'"))

def message : Failure → String
  | unsupportedVersion requested known =>
    s!"Unsupported version \"{requested}\". Supported values: " ++ ", ".intercalate known
  | duplicateVersion key => s!"Version already registered: {key}"
  | unknownOption name => s!"Unknown compiler option \"{name}\""
  | invalidOptionValue name value expected =>
    s!"Invalid value \"{value}\" for option \"{name}\". Expected {expected}"
  | missingVirtualFile path => s!"File \"{path}\" was requested but does not exist"
  | libraryRead path reason => s!"Failed to read library file {path}: {reason}"
  | sessionConsumed => "Session has already been compiled"
  | input reason => s!"Input error: {reason}"

end Failure

end VersionSweep
