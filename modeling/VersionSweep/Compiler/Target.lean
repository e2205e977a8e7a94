import VersionSweep.Setting.Assignment

/-!
# Codes of settings

The choices among settings are passed on as codes.  Here are the codes that steer the compiler, the
language level that is asked for and the library file that goes with it.
-/

namespace VersionSweep.Target

def es5 : Int := 1

def es2015 : Int := 2

def ofSettings (settings : Assignment) : Int :=
  (settings.code? "target").getD es5

def libraryName (settings : Assignment) : String :=
  if ofSettings settings ≥ es2015 then "lib.es2015.d.ts" else "lib.d.ts"

end VersionSweep.Target
