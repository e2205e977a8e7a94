import VersionSweep.Language.SourceFile

/-!
# Units of a program

A unit is a source file as part of a program: with its canonical path and with the units that its
imports lead to.
-/

namespace VersionSweep

structure SourceUnit where
  file : SourceFile
  /-- The canonical path of the file. -/
  key : String
  isLibrary : Bool
  /-- For each import that leads somewhere, the number of its statement and of the unit. -/
  imports : List (Nat × Nat)

namespace SourceUnit

def isModule (unit : SourceUnit) : Bool :=
  unit.file.isModule

def import? (unit : SourceUnit) (statement : Nat) : Option Nat :=
  unit.imports.lookup statement

def numbered (unit : SourceUnit) : List (Statement × Nat) :=
  unit.file.statements.zipIdx

end SourceUnit

end VersionSweep
