import VersionSweep.Language.SourceFile
import VersionSweep.Output.Layout

/-!
# Scripts

A source file is written as a script without its types: annotations go, declarations of things that
exist elsewhere go, and all other statements stay in their order, each on a line of its own.
-/

namespace VersionSweep.Layout

def strictLine : String := "\"use strict\";"

def keyword (layout : Layout) (keyword : VarKeyword) : String :=
  if layout.lowers then VarKeyword.var.word else keyword.word

def variableLine (layout : Layout) (file : SourceFile) (decl : VarDecl) : String :=
  let value := match decl.init with
    | some init => " = " ++ file.slice init.span
    | none => ""
  layout.keyword decl.keyword ++ " " ++ decl.name.text ++ value ++ ";"

def variableLines (layout : Layout) (file : SourceFile) (decl : VarDecl) : List String :=
  if decl.ambient then []
  else
    let line := layout.variableLine file decl
    match decl.exported, layout.style with
    | true, .esModule => ["export " ++ line]
    | true, .commonJs => [line, "exports." ++ decl.name.text ++ " = " ++ decl.name.text ++ ";"]
    | false, _ => [line]

def importLine (layout : Layout) (decl : ImportDecl) : String :=
  let quoted := "\"" ++ decl.specifier ++ "\""
  match layout.style, decl.names with
  | .esModule, [] => "import " ++ quoted ++ ";"
  | .esModule, _ => "import " ++ inBraces decl.nameList ++ " from " ++ quoted ++ ";"
  | .commonJs, [] => "require(" ++ quoted ++ ");"
  | .commonJs, _ =>
    layout.keyword .const ++ " " ++ inBraces decl.nameList ++ " = require(" ++ quoted ++ ");"

def scriptLines (layout : Layout) (file : SourceFile) : Statement → List String
  | .var decl => layout.variableLines file decl
  | .importNames decl => [layout.importLine decl]
  | .expr value _ => [file.slice value.span ++ ";"]

def script (layout : Layout) (file : SourceFile) : String :=
  layout.close
    ((if layout.strict then [strictLine] else []) ++
      file.statements.flatMap (layout.scriptLines file))

end VersionSweep.Layout
