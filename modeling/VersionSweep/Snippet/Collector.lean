import VersionSweep.Snippet.Directive
import VersionSweep.Snippet.Entry
import VersionSweep.Text.Line

/-!
# Collecting the files of a snippet

The lines of a snippet are taken one by one.  A line of the program joins the file at hand, but no
file begins with blank lines.  A directive for a file name closes the file at hand, unless that is
still empty, and begins the next one; any other directive is noted as a setting.  At the end the
file at hand is closed even if it is empty.
-/

namespace VersionSweep

/-- The file at hand, its lines so far, and the entries so far. -/
structure Collector where
  fileName : String
  lines : List String
  entries : List Entry
  deriving DecidableEq, Repr

namespace Collector

def start (fileName : String) : Collector :=
  ⟨fileName, [], []⟩

def close (collector : Collector) : Collector :=
  { collector with
    lines := []
    entries := collector.entries ++
      [.file collector.fileName (Text.joinLines collector.lines)] }

def takeSource (collector : Collector) (line : String) : Collector :=
  if collector.lines.isEmpty && Text.allBlank line.toList then collector
  else { collector with lines := collector.lines ++ [line] }

def feed (collector : Collector) (number : Nat) (line : String) : Collector :=
  match Directive.parse line with
  | none => collector.takeSource line
  | some directive =>
    if directive.isFileName then
      let closed := if collector.lines.isEmpty then collector else collector.close
      { closed with fileName := directive.raw }
    else
      { collector with
        entries := collector.entries ++ [.setting directive.name directive.raw number] }

/-- Take lines, the first one having the given number. -/
def feedAll (collector : Collector) (number : Nat) : List String → Collector
  | [] => collector
  | line :: rest => feedAll (collector.feed number line) (number + 1) rest

def finish (collector : Collector) : Snippet :=
  ⟨collector.close.entries⟩

end Collector

namespace Snippet

def defaultFileName : String := "repro.ts"

def parse (text fileName : String) : Snippet :=
  ((Collector.start fileName).feedAll 1 (Text.splitLines text)).finish

end Snippet

end VersionSweep
