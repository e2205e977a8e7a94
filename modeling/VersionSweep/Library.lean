import VersionSweep.VirtualPath

/-!
# Library files

The declarations that every program may use come in files of a folder outside the project.  Reading
one of them may fail in the ways in which reading any file may fail.
-/

namespace VersionSweep

/-- The ways in which a file cannot be read. -/
inductive ReadFailure where
  | missing
  | isFolder
  | notAFolder
  | nameTooLong
  | zeroInName
  | notText
  | other (reason : String)
  deriving DecidableEq, Repr

def ReadFailure.reason : ReadFailure → String
  | missing => "No such file or directory (os error 2)"
  | isFolder => "Is a directory (os error 21)"
  | notAFolder => "Not a directory (os error 20)"
  | nameTooLong => "File name too long (os error 36)"
  | zeroInName => "file name contained an unexpected NUL byte"
  | notText => "stream did not contain valid UTF-8"
  | other reason => reason

/-- A folder of library files: its path and what reading a file of it gives. -/
structure Library where
  path : String
  read : String → Except ReadFailure String

namespace Library

def join (folder name : String) : String :=
  if folder.toList = [] ∨ folder.toList.getLast? = some '/' then folder ++ name
  else folder ++ "/" ++ name

/-- The longest name, in bytes, that a file can have. -/
def nameLimit : Nat := 255

def ofFiles (path : String) (files : List (String × String)) : Library where
  path := path
  read name :=
    match files.find? fun file ↦ file.1 = name with
    | some file => .ok file.2
    | none =>
      if name.toList.contains '\x00' then .error .zeroInName
      else if name = "" ∨ name = "." ∨ name = ".." then .error .isFolder
      else if name.utf8ByteSize > nameLimit then .error .nameTooLong
      else .error .missing

def defaultPath : String := "lib"

def es5Declarations : String :=
  "// Reference backend default library (ES5)\n" ++
  "declare const NaN: number;\n" ++
  "declare const Infinity: number;\n" ++
  "declare var undefined: any;\n" ++
  "declare var console: any;\n" ++
  "declare var Math: any;\n" ++
  "declare var JSON: any;\n"

def es2015Declarations : String :=
  "// Reference backend default library (ES2015 and later)\n" ++
  "declare const NaN: number;\n" ++
  "declare const Infinity: number;\n" ++
  "declare var undefined: any;\n" ++
  "declare var console: any;\n" ++
  "declare var Math: any;\n" ++
  "declare var JSON: any;\n" ++
  "declare var Symbol: any;\n" ++
  "declare var Promise: any;\n" ++
  "declare var Map: any;\n" ++
  "declare var Set: any;\n"

def bundled : Library :=
  ofFiles defaultPath [("lib.d.ts", es5Declarations), ("lib.es2015.d.ts", es2015Declarations)]

end Library

end VersionSweep
