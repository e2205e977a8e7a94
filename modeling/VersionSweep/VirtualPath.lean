/-!
# Paths of project files

Files of a project live under virtual paths.  A path is read from the project folder unless it
begins at the root, both kinds of slash separate its parts, and parts that name the folder itself or
the folder above are worked off.  What is left is the canonical path, which is what files are known
by.
-/

namespace VersionSweep.VirtualPath

def projectFolder : String := "/project/"

def libraryFolder : String := "/libs/"

def forwardSlashes (cs : List Char) : List Char :=
  cs.map fun c ↦ if c = '\\' then '/' else c

/-- One more part of a path, the parts before it being held in reverse. -/
def pushPart (parts : List (List Char)) (part : List Char) : List (List Char) :=
  if part = [] ∨ part = ['.'] then parts
  else if part = ['.', '.'] then parts.tail
  else part :: parts

/-- The parts that remain when each `..` has taken away the part before it. -/
def resolveParts (parts : List (List Char)) : List (List Char) :=
  (parts.foldl pushPart []).reverse

/-- A path from the root, slashes forward. -/
def absolute (path : List Char) : List Char :=
  let path := forwardSlashes path
  if path.head? = some '/' then path else projectFolder.toList ++ path

def canonicalChars (path : List Char) : List Char :=
  '/' :: ['/'].intercalate (resolveParts ((absolute path).splitOn '/'))

/-- The canonical form of a path: from the root, without empty parts and dots. -/
def canonical (path : String) : String :=
  String.ofList (canonicalChars path.toList)

/-- Whether a path, as it is spelled, begins with the library folder. -/
def isLibrary (path : String) : Bool :=
  libraryFolder.toList.isPrefixOf (forwardSlashes path.toList)

/-- What follows the last slash of either kind. -/
def baseName (path : String) : String :=
  String.ofList
    (path.toList.reverse.takeWhile fun c ↦ c ≠ '/' && c ≠ '\\').reverse

/-- What is left of a text after the given beginning, if it has that beginning. -/
def dropBeginning? : List Char → List Char → Option (List Char)
  | [], cs => some cs
  | _ :: _, [] => none
  | p :: ps, c :: cs => if p = c then dropBeginning? ps cs else none

/-- The name of a file as a user would write it: relative to the project folder if it is there. -/
def displayName (key : String) : String :=
  match dropBeginning? projectFolder.toList key.toList with
  | some rest => String.ofList rest
  | none => key

/-- A path up to and with its last slash. -/
def folder (path : String) : String :=
  String.ofList (path.toList.reverse.dropWhile fun c ↦ c ≠ '/').reverse

end VersionSweep.VirtualPath
