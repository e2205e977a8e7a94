import VersionSweep.Setting.Basic

/-!
# Settings of the sweep itself

Settings that steer the sweep over versions and are never passed on to a compiler.  There is one,
which asks for every version to be run.
-/

namespace VersionSweep

structure SweepFlags where
  /-- Run every version and compare them. -/
  regress : Bool
  deriving DecidableEq, Repr

namespace SweepFlags

def none : SweepFlags := ⟨false⟩

def regressName : String := "regress"

/-- Whether a name, in any letter case, is reserved for the sweep. -/
def reserves (name : String) : Bool :=
  Text.sameFolded regressName name

/-- Set a reserved name from its text; nothing if the name is not reserved. -/
def setReserved? (flags : SweepFlags) (name raw : String) : Option (Except Failure SweepFlags) :=
  if reserves name then
    match Setting.readBool? raw with
    | some value => some (.ok { flags with regress := value })
    | .none => some (.error (.invalidOptionValue regressName raw Scalar.boolean.describe))
  else .none

end SweepFlags

end VersionSweep
