/-!
# Diagnostics

What a compiler reports about a snippet.  A message may carry elaborations, each of which may carry
its own; `Message.flatten` writes such a tree one row per message, two blanks further in per level.
-/

namespace VersionSweep

inductive Severity where
  | error
  | warning
  | suggestion
  | message
  deriving DecidableEq, Repr

def Severity.word : Severity → String
  | error => "error"
  | warning => "warning"
  | suggestion => "suggestion"
  | message => "message"

/-- A text with its elaborations. -/
inductive Message where
  | node (text : String) (next : List Message)

namespace Message

def ofText (text : String) : Message := .node text []

def text : Message → String
  | .node text _ => text

def next : Message → List Message
  | .node _ next => next

/-- The blanks in front of a message at a given level of elaboration. -/
def indent (depth : Nat) : String :=
  String.ofList (List.replicate (2 * depth) ' ')

mutual

def rows (depth : Nat) : Message → List String
  | .node text next => (indent depth ++ text) :: rowsOfList (depth + 1) next

def rowsOfList (depth : Nat) : List Message → List String
  | [] => []
  | message :: rest => rows depth message ++ rowsOfList depth rest

end

def flatten (message : Message) : String :=
  "\n".intercalate (message.rows 0)

end Message

/-- A stretch of a file, in bytes. -/
structure Location where
  file : String
  start : Nat
  length : Nat
  deriving DecidableEq, Repr

/-- A report, located in a file or about the whole run. -/
structure Diagnostic where
  severity : Severity
  code : Nat
  message : Message
  location : Option Location

namespace Diagnostic

def isGlobal (diagnostic : Diagnostic) : Bool :=
  diagnostic.location.isNone

end Diagnostic

end VersionSweep
