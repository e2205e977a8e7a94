import VersionSweep.Number.Binary64
import VersionSweep.OrderedMap
import VersionSweep.Text.Fold

/-!
# Values of compiler settings

A compiler declares each of its settings with a kind, and a setting is given a value of that kind.
-/

namespace VersionSweep

/-- The kinds of a value that is neither a list nor a choice. -/
inductive Scalar where
  | boolean
  | number
  | string
  deriving DecidableEq, Repr

def Scalar.describe : Scalar → String
  | boolean => "a boolean"
  | number => "a number"
  | string => "a string"

/-- The kinds of setting.  A choice comes with the code of each word, words in small letters. -/
inductive SettingKind where
  | scalar (element : Scalar)
  | list (element : Scalar)
  | choice (table : OrderedMap Int)

/-- The values of settings. -/
inductive SettingValue where
  | bool (value : Bool)
  | number (value : Binary64)
  | string (value : String)
  | list (values : List SettingValue)
  | choice (word : String) (code : Int)

/-- The table of a choice: words are stored in small letters, and a word that comes twice keeps its
first place and its last code. -/
def SettingKind.choiceOf (choices : List (String × Int)) : SettingKind :=
  .choice (OrderedMap.ofList (choices.map fun entry ↦ (Text.foldCase entry.1, entry.2)))

end VersionSweep
