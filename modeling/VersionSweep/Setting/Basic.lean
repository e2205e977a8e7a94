import VersionSweep.Failure
import VersionSweep.Number.Decimal
import VersionSweep.Setting.Value
import VersionSweep.Text.Blank

/-!
# Settings and how their values are read

A setting is a name with a kind.  `Setting.read` turns the text that a user gave into a value of
that kind, or fails with the text and with what was expected.
-/

namespace VersionSweep

/-- A setting that a compiler declares, its name spelled as the compiler spells it. -/
structure Setting where
  name : String
  kind : SettingKind

namespace Setting

def boolean (name : String) : Setting := ⟨name, .scalar .boolean⟩

def number (name : String) : Setting := ⟨name, .scalar .number⟩

def string (name : String) : Setting := ⟨name, .scalar .string⟩

def list (name : String) (element : Scalar) : Setting := ⟨name, .list element⟩

def choice (name : String) (choices : List (String × Int)) : Setting := ⟨name, .choiceOf choices⟩

/-- A truth value: one of two words in any case, blanks around it not counting. -/
def readBool? (raw : String) : Option Bool :=
  let word := Text.foldCase (String.ofList (Text.trim raw.toList))
  if word = "true" then some true
  else if word = "false" then some false
  else none

def readScalar? (raw : String) : Scalar → Option SettingValue
  | .boolean => (readBool? raw).map .bool
  | .number => (Decimal.read? (Text.trim raw.toList)).map .number
  | .string => some (.string raw)

def readScalar (name : String) (element : Scalar) (raw : String) : Except Failure SettingValue :=
  match readScalar? raw element with
  | some value => .ok value
  | none => .error (.invalidOptionValue name raw element.describe)

/-- The items between commas, without the blanks around them and without empty ones. -/
def listItems (raw : String) : List String :=
  (((raw.toList.splitOn ',').map Text.trim).filter (· ≠ [])).map String.ofList

/-- The items of a list read from the left; the first one that cannot be read is the failure. -/
def readItems (name : String) (element : Scalar) :
    List String → Except Failure (List SettingValue)
  | [] => .ok []
  | item :: rest =>
    match readScalar name element item with
    | .error failure => .error failure
    | .ok value =>
      match readItems name element rest with
      | .error failure => .error failure
      | .ok values => .ok (value :: values)

def read (setting : Setting) (raw : String) : Except Failure SettingValue :=
  match setting.kind with
  | .scalar element => readScalar setting.name element raw
  | .list element => (readItems setting.name element (listItems raw)).map .list
  | .choice table =>
    match table.get? (Text.foldCase raw) with
    | some code => .ok (.choice (Text.foldCase raw) code)
    | none => .error (.invalidChoice setting.name raw table.keys)

end Setting

end VersionSweep
