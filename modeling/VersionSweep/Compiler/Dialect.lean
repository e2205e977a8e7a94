/-!
# Dialects

The compiler versions differ in few things, and all of these hang on the major version: from the
second on, messages about values name a literal by its text instead of its type, and the third adds
a setting.
-/

namespace VersionSweep

/-- A version of the language by its major number. -/
structure Dialect where
  major : Nat
  deriving DecidableEq, Repr

namespace Dialect

/-- The greatest major number that counts; a text that writes a greater one stands for zero. -/
def majorLimit : Nat := 0x100000000

/-- The number that a text writes in decimal digits, after at most one plus sign. -/
def readMajor? (cs : List Char) : Option Nat :=
  let digits := match cs with
    | '+' :: rest => rest
    | cs => cs
  if digits.isEmpty || !digits.all Char.isDigit then none
  else
    let value := digits.foldl (fun value c ↦ 10 * value + (c.toNat - '0'.toNat)) 0
    if value < majorLimit then some value else none

/-- The dialect of a version: the number before the first point, or zero if there is none. -/
def ofVersion (version : String) : Dialect :=
  ⟨(readMajor? (version.toList.takeWhile (· ≠ '.'))).getD 0⟩

/-- Whether messages name a literal by its text. -/
def namesLiterals (dialect : Dialect) : Bool :=
  2 ≤ dialect.major

/-- Whether there is the setting that asks for declarations that stand by themselves. -/
def hasIsolatedDeclarations (dialect : Dialect) : Bool :=
  3 ≤ dialect.major

end Dialect

end VersionSweep
