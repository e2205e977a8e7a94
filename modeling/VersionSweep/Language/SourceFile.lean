import VersionSweep.Language.Parsing

/-!
# Source files

A source file is a text with the statements that were read from it and with what was found wrong on
the way.  Findings are kept by position; where two begin at one place, those about tokens come
before those about statements.
-/

namespace VersionSweep

structure SourceFile where
  /-- The name under which the file was asked for. -/
  name : String
  text : String
  /-- The code of the language level that was asked for. -/
  target : Int
  statements : List Statement
  findings : List Finding

/-- Findings in the order of their places, those at one place as they came. -/
def Finding.sort (findings : List Finding) : List Finding :=
  findings.mergeSort fun a b ↦ a.span.start ≤ b.span.start

namespace SourceFile

def parse (name text : String) (target : Int) : SourceFile :=
  let scan := Token.scan 0 text.toList
  let items := Parsing.items (Stream.ofScan scan)
  ⟨name, text, target, items.filterMap Parsing.Item.statement?,
    Finding.sort (scan.findings ++ items.filterMap Parsing.Item.finding?)⟩

def diagnostics (file : SourceFile) : List Diagnostic :=
  file.findings.map fun finding ↦ finding.toDiagnostic file.name

def slice (file : SourceFile) (span : Span) : String :=
  String.ofList (Text.between file.text.toList span.start span.stop)

def isModule (file : SourceFile) : Bool :=
  file.statements.any Statement.makesModule

/-- Whether the file holds declarations only, so that nothing is made from it. -/
def isDeclarationFile (file : SourceFile) : Bool :=
  ".d.ts".toList.isSuffixOf file.name.toList

end SourceFile

end VersionSweep
