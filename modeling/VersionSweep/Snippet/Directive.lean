import VersionSweep.Text.Blank
import VersionSweep.Text.Fold
import VersionSweep.Text.Pattern
import VersionSweep.Text.Word

/-!
# Directives

A directive is a line comment that sets something: two slashes, at most one blank, an at sign and a
name, and then either nothing but blanks or a colon and a value.  Any other line is a line of the
program.
-/

namespace VersionSweep

inductive Directive where
  /-- A name by itself. -/
  | flag (name : String)
  /-- A name with a value. -/
  | value (name value : String)
  deriving DecidableEq, Repr

namespace Directive

open Text (Piece)

/-- Two slashes, at most one blank, an at sign and a name. -/
def opening : List Piece :=
  [.char '/', .char '/', .run 0 (some 1) Text.isBlank, .char '@', .run 1 none Text.isWord]

def flagPattern : List Piece :=
  opening ++ [.run 0 none Text.isBlank]

def valuePattern : List Piece :=
  opening ++ [.char ':', .run 0 none fun c ↦ c ≠ '\n']

/-- The value behind a colon.  One space before it and all blanks at the end do not belong to it. -/
def valueOf (rest : List Char) : List Char :=
  let raw := match rest with
    | ' ' :: raw => raw
    | raw => raw
  Text.trimEnd raw

/-- The pattern of a bare name is tried first. -/
def parse (line : String) : Option Directive :=
  match Piece.match? flagPattern line.toList with
  | some [_, name, _] => some (.flag (String.ofList name))
  | _ =>
    match Piece.match? valuePattern line.toList with
    | some [_, name, rest] => some (.value (String.ofList name) (String.ofList (valueOf rest)))
    | _ => none

def name : Directive → String
  | flag name => name
  | value name _ => name

/-- The text that a directive sets its name to; a bare name is switched on. -/
def raw : Directive → String
  | flag _ => "true"
  | value _ text => text

def fileNameWord : String := "filename"

def isFileName : Directive → Bool
  | flag _ => false
  | value name _ => Text.sameFolded name fileNameWord

end Directive

end VersionSweep
