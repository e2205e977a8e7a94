/-!
# Types

The types of the small language.  `any` goes with every type in both directions, and any other type
only with itself.
-/

namespace VersionSweep

inductive BasicType where
  | any
  | number
  | string
  | boolean
  deriving DecidableEq, Repr

namespace BasicType

def word : BasicType → String
  | any => "any"
  | number => "number"
  | string => "string"
  | boolean => "boolean"

def ofWord? (word : String) : Option BasicType :=
  if word = "any" then some any
  else if word = "number" then some number
  else if word = "string" then some string
  else if word = "boolean" then some boolean
  else none

@[simp] theorem ofWord?_word (type : BasicType) : ofWord? type.word = some type := by
  cases type <;> decide

/-- Whether a value of one type may stand where another type is asked for. -/
def assignableTo (source target : BasicType) : Bool :=
  target == any || source == any || source == target

end BasicType

end VersionSweep
