import VersionSweep.Setting.SweepFlags

/-!
# Snippets

A snippet is one text that holds the files of a small project and the settings to compile it with.
Read, it is a list of entries in the order of the text.  Replaying the entries onto a target adds
the files and sets the settings, up to the first setting that the target refuses.
-/

namespace VersionSweep

/-- A step of a snippet. -/
inductive Entry where
  /-- A setting is set on a line, lines counted from one. -/
  | setting (name value : String) (line : Nat)
  /-- A file is complete. -/
  | file (name content : String)
  deriving DecidableEq, Repr

/-- What a snippet can be replayed onto. -/
structure SnippetTarget (σ : Type) where
  addFile : String → String → σ → σ
  set : String → String → σ → Except Failure σ

/-- A snippet by its entries. -/
structure Snippet where
  entries : List Entry
  deriving DecidableEq, Repr

namespace Snippet

def files (snippet : Snippet) : List (String × String) :=
  snippet.entries.filterMap fun
    | .file name content => some (name, content)
    | .setting _ _ _ => none

def settings (snippet : Snippet) : List (String × String) :=
  snippet.entries.filterMap fun
    | .setting name value _ => some (name, value)
    | .file _ _ => none

/-- The flags after one more setting; a text that is no value changes nothing here. -/
def applyFlag (flags : SweepFlags) (setting : String × String) : SweepFlags :=
  match flags.setReserved? setting.1 setting.2 with
  | some (.ok flags) => flags
  | _ => flags

def asksForRegression (snippet : Snippet) : Bool :=
  (snippet.settings.foldl applyFlag .none).regress

/-- Where a replay ended, and the failure that ended it early. -/
structure Replay (σ : Type) where
  state : σ
  failure : Option Failure

def replayEntries {σ : Type} (target : SnippetTarget σ) (state : σ) :
    List Entry → Replay σ
  | [] => ⟨state, none⟩
  | .file name content :: rest => replayEntries target (target.addFile name content state) rest
  | .setting name value _ :: rest =>
    match target.set name value state with
    | .ok state => replayEntries target state rest
    | .error failure => ⟨state, some failure⟩

def replay {σ : Type} (snippet : Snippet) (target : SnippetTarget σ) (state : σ) : Replay σ :=
  replayEntries target state snippet.entries

end Snippet

end VersionSweep
