import VersionSweep.Proofs.Output.IsolatedDeclarations
import VersionSweep.Proofs.Output.ScriptRoundTrip

/-!
# Declaration files state the checked types

Each line of a declaration file is a statement that ends with a semicolon, and so is read by itself:
an import as it was written, or a variable without a value that is said to exist elsewhere.  The
word behind the name of a variable is the annotation as it was written, or else the word of the type
that the check has noted under the numbers of the unit and of the statement, so that either way it
stands for the type that was noted.
-/

namespace VersionSweep

open Token (Shape Outlined Stops)

namespace Layout

variable {layout : Layout} {file : SourceFile}

def typeWord (recorded : Option BasicType) (decl : VarDecl) : String :=
  match decl.annotation with
  | some annotation => annotation.text
  | none => (recorded.getD .any).word

def declared (recorded : Option BasicType) : Statement → Statement
  | .var decl => .var { decl with
      ambient := true, annotation := some ⟨typeWord recorded decl, .zero⟩, init := none }
  | statement => statement

end Layout

namespace Program

end Program

end VersionSweep
