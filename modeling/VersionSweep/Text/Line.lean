/-!
# Lines of a text

A line ends at a line feed.  A carriage return before the line feed belongs to the line break and
not to the line.  There are two readings of the end of a text: `splitLines` has one more line than
the text has line feeds, while `blockLines` has no empty line after a final line feed.
-/

namespace VersionSweep.Text

/-- A line without one carriage return at its end. -/
def dropReturn (line : List Char) : List Char :=
  if line.getLast? = some '\r' then line.dropLast else line

def rawLines (cs : List Char) : List (List Char) :=
  cs.splitOn '\n'

/-- The lines of a text, the last one being what follows the last line feed. -/
def splitLines (text : String) : List String :=
  (rawLines text.toList).map fun line ↦ String.ofList (dropReturn line)

/-- The lines of a block of output: only a line that is closed by a line feed loses its carriage
return, and nothing after the last line feed is no line. -/
def blockLines (block : String) : List String :=
  let stretches := rawLines block.toList
  let closed := stretches.dropLast.map fun line ↦ String.ofList (dropReturn line)
  match stretches.getLast? with
  | none => closed
  | some [] => closed
  | some last => closed ++ [String.ofList last]

/-- The line break that closes the lines of a file put together from a snippet. -/
def lineBreak : String := "\r\n"

/-- Lines put together again with the line break of a file between them. -/
def joinLines (lines : List String) : String :=
  lineBreak.intercalate lines

def stack (rows : List String) : String :=
  "\n".intercalate rows

end VersionSweep.Text
