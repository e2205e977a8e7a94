import VersionSweep.Text.Line

/-!
# Media of reports

A report is shown on a console or as a Markdown text.  A medium puts marks around a text and leaves
the text itself as it is.
-/

namespace VersionSweep

inductive Medium where
  | console
  | markdown
  deriving DecidableEq, Repr

namespace Medium

/-- The width that the bars of a console header are measured from. -/
def headerWidth : Nat := 58

/-- The bar at either side of a console header: what the headline leaves of the width, down to an
even number. -/
def bar (headline : String) : String :=
  String.ofList (List.replicate (2 * ((headerWidth - headline.length) / 2)) '=')

def sectionHeader : Medium → String → String
  | console, headline => bar headline ++ " " ++ headline ++ " " ++ bar headline
  | markdown, headline => "**" ++ headline ++ "**"

def title : Medium → String → String
  | console, text => ">> " ++ text ++ " <<"
  | markdown, text => "### " ++ text

def codeBlock : Medium → String → String
  | console, code => Text.joinLines ((Text.splitLines code).map fun line ↦ "    " ++ line)
  | markdown, code => "```js\r\n" ++ code ++ "\r\n```"

def literal : Medium → String → String
  | console, text => text
  | markdown, text => "```\r\n" ++ text ++ "\r\n```"

end Medium

end VersionSweep
