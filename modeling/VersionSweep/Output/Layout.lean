import VersionSweep.Compiler.Target
import VersionSweep.Language.Tree

/-!
# Layout of written files

The settings that shape what is written: the line break, whether newer words for variables are
lowered to the oldest one, the way modules are written, and whether strict mode is asked for.
-/

namespace VersionSweep

/-- The ways of writing imports and exports. -/
inductive ModuleStyle where
  /-- As calls of `require` and assignments to `exports`. -/
  | commonJs
  /-- As import and export statements. -/
  | esModule
  deriving DecidableEq, Repr

structure Layout where
  newLine : String
  /-- Whether every variable is declared with the oldest word. -/
  lowers : Bool
  style : ModuleStyle
  strict : Bool
  deriving DecidableEq, Repr

namespace Layout

/-- The codes of the module setting that ask for import and export statements. -/
def esModuleCodes : List Int := [5, 99]

/-- The layout that settings ask for, where the host breaks lines with `hostNewLine`. -/
def ofSettings (settings : Assignment) (hostNewLine : String) : Layout where
  newLine :=
    match settings.choice? "newLine" with
    | some word => if word = "lf" then "\n" else if word = "crlf" then "\r\n" else hostNewLine
    | none => hostNewLine
  lowers := Target.ofSettings settings < Target.es2015
  style :=
    match settings.code? "module" with
    | some code => if code ∈ esModuleCodes then .esModule else .commonJs
    | none => if Target.ofSettings settings ≥ Target.es2015 then .esModule else .commonJs
  strict := settings.flag "strict" || settings.flag "alwaysStrict"

def close (layout : Layout) (lines : List String) : String :=
  String.join (lines.map fun line ↦ line ++ layout.newLine)

end Layout

def ImportDecl.nameList (decl : ImportDecl) : String :=
  ", ".intercalate (decl.names.map Ident.text)

def inBraces (names : String) : String :=
  "\x7b " ++ names ++ " \x7d"

end VersionSweep
