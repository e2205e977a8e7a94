import VersionSweep.Setting.Value

/-!
# Assignments of settings

What a compiler is told: a value for each setting that was set, in the order of first setting.
Names are kept in small letters and looked up in any letter case.
-/

namespace VersionSweep

/-- Values of settings under their names in small letters. -/
structure Assignment where
  values : OrderedMap SettingValue

namespace Assignment

def empty : Assignment := ⟨.empty⟩

def set (settings : Assignment) (name : String) (value : SettingValue) : Assignment :=
  ⟨settings.values.insert (Text.foldCase name) value⟩

def get? (settings : Assignment) (name : String) : Option SettingValue :=
  settings.values.get? (Text.foldCase name)

def contains (settings : Assignment) (name : String) : Bool :=
  (settings.get? name).isSome

/-- Whether a setting is on.  A setting with no value or with a value of another kind is off. -/
def flag (settings : Assignment) (name : String) : Bool :=
  match settings.get? name with
  | some (.bool value) => value
  | _ => false

def string? (settings : Assignment) (name : String) : Option String :=
  match settings.get? name with
  | some (.string value) => some value
  | _ => none

def number? (settings : Assignment) (name : String) : Option Binary64 :=
  match settings.get? name with
  | some (.number value) => some value
  | _ => none

def choice? (settings : Assignment) (name : String) : Option String :=
  match settings.get? name with
  | some (.choice word _) => some word
  | _ => none

def code? (settings : Assignment) (name : String) : Option Int :=
  match settings.get? name with
  | some (.choice _ code) => some code
  | _ => none

end Assignment

end VersionSweep
