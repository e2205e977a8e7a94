import VersionSweep.Config.Json
import VersionSweep.Failure
import VersionSweep.Library
import VersionSweep.Snippet.Collector

/-!
# Configuration

What a run takes from a configuration file.  A file may leave out any field, and fields that it does
not set have default values.
-/

namespace VersionSweep

structure Config where
  /-- The folder of the library files. -/
  libraryPath : String
  /-- The key of the version to run where none is asked for. -/
  defaultVersion : String
  /-- The name of the first file of a snippet. -/
  defaultFileName : String
  /-- The number of diagnostics to show. -/
  shownDiagnostics : Nat
  deriving DecidableEq, Repr

/-- The fields that a configuration file sets. -/
structure ConfigFields where
  libraryPath : Option String
  defaultVersion : Option String
  defaultFileName : Option String
  shownDiagnostics : Option Nat
  deriving DecidableEq, Repr

namespace Config

def standard : Config :=
  ⟨Library.defaultPath, "latest", Snippet.defaultFileName, 10⟩

def ofLibraryPath (path : String) : Config :=
  { standard with libraryPath := path }

def ofFields (fields : ConfigFields) : Config where
  libraryPath := fields.libraryPath.getD standard.libraryPath
  defaultVersion := fields.defaultVersion.getD standard.defaultVersion
  defaultFileName := fields.defaultFileName.getD standard.defaultFileName
  shownDiagnostics := fields.shownDiagnostics.getD standard.shownDiagnostics

end Config

namespace ConfigFields

def empty : ConfigFields := ⟨none, none, none, none⟩

/-- Counts are below this number. -/
def countLimit : Nat := 0x10000000000000000

def text? : Json → Option String
  | .string text => text
  | _ => none

def count? : Json → Option Nat
  | .number (some value) => if value < countLimit then some value else none
  | _ => none

def setOnce {α : Type} (old new : Option α) : Option (Option α) :=
  match old, new with
  | none, some value => some (some value)
  | _, _ => none

/-- The fields with one more field of the file.  A name that is none of a field's is passed over; a
field that comes twice or has a value of the wrong kind spoils the file. -/
def addField (fields : ConfigFields) (name : Option String) (value : Json) :
    Option ConfigFields :=
  match name with
  | none => none
  | some name =>
    if name = "lib_dir" then
      (setOnce fields.libraryPath (text? value)).map fun new ↦ { fields with libraryPath := new }
    else if name = "default_version" then
      (setOnce fields.defaultVersion (text? value)).map fun new ↦
        { fields with defaultVersion := new }
    else if name = "default_file_name" then
      (setOnce fields.defaultFileName (text? value)).map fun new ↦
        { fields with defaultFileName := new }
    else if name = "max_rendered_diagnostics" then
      (setOnce fields.shownDiagnostics (count? value)).map fun new ↦
        { fields with shownDiagnostics := new }
    else some fields

def ofObject (fields : ConfigFields) : List (Option String × Json) → Option ConfigFields
  | [] => some fields
  | (name, value) :: rest => (addField fields name value).bind fun fields ↦ ofObject fields rest

/-- The names of the fields in the order in which an array gives their values. -/
def fieldNames : List String :=
  ["lib_dir", "default_version", "default_file_name", "max_rendered_diagnostics"]

/-- The fields that a configuration text sets: an object with fields by name, or an array with their
values in order. -/
def ofText? (text : String) : Option ConfigFields :=
  match Json.parse? text with
  | some (.object fields) => ofObject empty fields
  | some (.array values) =>
    if values.length ≤ fieldNames.length then
      ofObject empty ((fieldNames.map some).zip values)
    else none
  | _ => none

end ConfigFields

namespace Config

/-- The configuration of a file, given what reading the file gave. -/
def load (path : String) (content : Except ReadFailure String) : Except Failure Config :=
  match content with
  | .error failure => .error (.input s!"{path}: {failure.reason}")
  | .ok text =>
    match ConfigFields.ofText? text with
    | some fields => .ok (ofFields fields)
    | none => .error (.input s!"{path} is no configuration")

end Config

end VersionSweep
