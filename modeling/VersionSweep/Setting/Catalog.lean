import VersionSweep.Setting.Basic

/-!
# Catalogs of settings

The settings that a compiler declares, in the order of declaration and found under their names in
any letter case.  A name that is declared again keeps its place and takes the new declaration.
-/

namespace VersionSweep

/-- Declared settings under their names in small letters. -/
structure Catalog where
  settings : OrderedMap Setting

namespace Catalog

def empty : Catalog := ⟨.empty⟩

def declare (catalog : Catalog) (setting : Setting) : Catalog :=
  ⟨catalog.settings.insert (Text.foldCase setting.name) setting⟩

def ofList (settings : List Setting) : Catalog :=
  settings.foldl declare empty

def lookup (catalog : Catalog) (name : String) : Option Setting :=
  catalog.settings.get? (Text.foldCase name)

def names (catalog : Catalog) : List String :=
  catalog.settings.values.map Setting.name

end Catalog

end VersionSweep
