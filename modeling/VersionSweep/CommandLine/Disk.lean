import VersionSweep.Library

/-!
# Disks

The files that a command can read, as the outcome of reading any path.  `Disk.ofFiles` is a working
folder that holds some files in folders of its own; above it there is nothing to read.
-/

namespace VersionSweep

structure Disk where
  read : String → Except ReadFailure String

namespace Disk

def parts (path : String) : List String :=
  (path.toList.splitOn '/').map String.ofList

def isStay (part : String) : Bool :=
  part = "" || part = "."

def place (path : String) : List String :=
  (parts path).filter fun part ↦ !isStay part

/-- Follow the parts of a path from a folder, which is given by its place below the working folder,
or not at all if it is above it. -/
def follow (files : List (List String × String)) :
    Option (List String) → List String → Except ReadFailure String
  | _, [] => .error .isFolder
  | folder, part :: rest =>
    if isStay part then follow files folder rest
    else if part = ".." then
      follow files (folder.bind fun place ↦ if place = [] then none else some place.dropLast) rest
    else if part.utf8ByteSize > Library.nameLimit then .error .nameTooLong
    else
      match folder with
      | none => .error .missing
      | some folder =>
        match files.find? fun file ↦ file.1 = folder ++ [part] with
        | some file => if rest = [] then .ok file.2 else .error .notAFolder
        | none =>
          if files.any fun file ↦ (folder ++ [part]).isPrefixOf file.1 then
            follow files (some (folder ++ [part])) rest
          else .error .missing

/-- Paths are shorter than this number of bytes. -/
def pathLimit : Nat := 4096

/-- A working folder into which the given files were written one after the other. -/
def ofFiles (files : List (String × String)) : Disk where
  read path :=
    if path.toList.contains '\x00' then .error .zeroInName
    else if path = "" then .error .missing
    else if pathLimit ≤ path.utf8ByteSize then .error .nameTooLong
    else
      follow (files.reverse.map fun file ↦ (place file.1, file.2))
        (if path.toList.head? = some '/' then none else some []) (parts path)

def ofReadings (readings : List (String × Except ReadFailure String)) : Disk where
  read path :=
    match readings.find? fun reading ↦ reading.1 = path with
    | some reading => reading.2
    | none => .error .missing

def library (disk : Disk) (path : String) : Library :=
  ⟨path, fun name ↦ disk.read (Library.join path name)⟩

end Disk

end VersionSweep
