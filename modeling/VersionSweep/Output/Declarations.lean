import VersionSweep.Language.SourceFile
import VersionSweep.Output.Layout
import VersionSweep.Typing.BasicType

/-!
# Declaration files

What other files may use of a file: its variables with their types, of a module only the exported
ones.  The imports of a module stay, so that a module is read as a module again.
-/

namespace VersionSweep.Layout

/-- A variable with its type, which is the annotation as written if there is one. -/
def declarationLine (type : Option BasicType) (decl : VarDecl) : String :=
  let typeWord := match decl.annotation with
    | some annotation => annotation.text
    | none => (type.getD .any).word
  (if decl.exported then "export " else "") ++ "declare " ++ decl.keyword.word ++ " " ++
    decl.name.text ++ ": " ++ typeWord ++ ";"

/-- The lines that a statement of a file is declared with, given whether the file is a module. -/
def declarationLines (isModule : Bool) (type : Option BasicType) : Statement → List String
  | .importNames decl =>
    if isModule then
      ["import " ++ inBraces decl.nameList ++ " from \"" ++ decl.specifier ++ "\";"]
    else []
  | .var decl => if !isModule || decl.exported then [declarationLine type decl] else []
  | .expr _ _ => []

def emptyExportLine : String := "export \x7b\x7d;"

def exportsVariable : Statement → Bool
  | .var decl => decl.exported
  | _ => false

/-- The declaration file of a file, given the types of its statements by number. -/
def declarations (layout : Layout) (file : SourceFile) (typeOf : Nat → Option BasicType) :
    String :=
  let lines := file.statements.zipIdx.flatMap fun (statement, number) ↦
    declarationLines file.isModule (typeOf number) statement
  let closing :=
    if file.isModule && !file.statements.any exportsVariable then [emptyExportLine] else []
  layout.close (lines ++ closing)

end VersionSweep.Layout
