import VersionSweep.OrderedMap
import VersionSweep.Text.Line

/-!
# Blocks

What one version makes of a snippet as one text: its diagnostics, and below them the written files.
If there is a limit, only so many diagnostics are shown and the others are counted.
-/

namespace VersionSweep

/-- What goes into a block. -/
structure BlockOptions where
  /-- The number of diagnostics to show; without it all are shown. -/
  limit : Option Nat
  /-- Whether the written files are shown. -/
  outputs : Bool
  deriving DecidableEq, Repr

namespace Block

def outputHeader (path : String) : String :=
  s!"--- output {path} ---"

def dropFinalBreaks (text : String) : String :=
  String.ofList (text.toList.reverse.dropWhile fun c ↦ c = '\r' || c = '\n').reverse

def renderOutputs (outputs : OrderedMap String) : String :=
  Text.stack (outputs.entries.map fun output ↦
    outputHeader output.1 ++ "\n" ++ dropFinalBreaks output.2)

def overflowRow (count : Nat) : String :=
  s!"... {count} more errors not shown"

/-- The diagnostics that are shown, and a row for the others if there are any. -/
def shownDiagnostics (limit : Option Nat) (rendered : List String) : List String :=
  match limit with
  | none => rendered
  | some limit =>
    if rendered.length > limit then
      rendered.take limit ++ [overflowRow (rendered.length - limit)]
    else rendered

def render (options : BlockOptions) (rendered : List String) (outputs : OrderedMap String) :
    String :=
  Text.stack (shownDiagnostics options.limit rendered ++
    if options.outputs && !outputs.isEmpty then [renderOutputs outputs] else [])

end Block

end VersionSweep
