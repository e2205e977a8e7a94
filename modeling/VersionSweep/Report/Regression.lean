import VersionSweep.Registry
import VersionSweep.Report.Block
import VersionSweep.Report.Change
import VersionSweep.Report.Medium

/-!
# Regression reports

A snippet is run on a row of versions, each by itself, and the block of each version is compared
with the block of the version right before it.  A version that fails is an entry like any other,
with its failure for a block.
-/

namespace VersionSweep

/-- How the run of a version ended. -/
inductive Outcome where
  /-- With so many diagnostics and written files. -/
  | compiled (diagnostics outputs : Nat)
  | failed (error : String)
  deriving DecidableEq, Repr

def Outcome.isFailure : Outcome → Bool
  | compiled _ _ => false
  | failed _ => true

/-- What one version made of a snippet. -/
structure VersionRun where
  label : String
  version : String
  outcome : Outcome
  block : String
  deriving DecidableEq, Repr

/-- A run beside the one before it. -/
structure ReportEntry where
  run : VersionRun
  sameAsPrevious : Bool
  changes : List LineChange
  deriving DecidableEq, Repr

structure Report where
  entries : List ReportEntry
  /-- Whether every version was run. -/
  regression : Bool
  deriving DecidableEq, Repr

/-- Counts over a report. -/
structure ReportSummary where
  versions : Nat
  distinct : Nat
  failed : Nat
  deriving DecidableEq, Repr

/-- What a version makes of a snippet, and the session in which it did. -/
def Version.compile (version : Version) (snippet : Snippet) :
    Except Failure (Compilation × Session) :=
  let loaded := version.session.load snippet
  match loaded.failure with
  | some failure => .error failure
  | none =>
    match loaded.state.compile with
    | (.error failure, _) => .error failure
    | (.ok result, session) => .ok (result, session)

namespace VersionRun

def shown (options : BlockOptions) (compiled : Compilation × Session) : Outcome × String :=
  (.compiled compiled.1.diagnostics.length compiled.1.outputs.size,
    Block.render options (compiled.2.render compiled.1.diagnostics) compiled.1.outputs)

/-- The outcome and the block of a version that gets through. -/
def outcome? (options : BlockOptions) (snippet : Snippet) (version : Version) :
    Except Failure (Outcome × String) :=
  (version.compile snippet).map (shown options)

def ofVersion (options : BlockOptions) (snippet : Snippet) (version : Version) : VersionRun :=
  match outcome? options snippet version with
  | .ok (outcome, block) => ⟨version.label, version.compiler.version, outcome, block⟩
  | .error failure =>
    ⟨version.label, version.compiler.version, .failed failure.message, failure.message⟩

def compare (previous : VersionRun) (run : VersionRun) : ReportEntry :=
  if previous.block = run.block then ⟨run, true, []⟩
  else ⟨run, false, LineChange.ofBlocks previous.block run.block⟩

/-- The entry of a run behind the entries so far.  The first run has nothing to be compared with. -/
def nextEntry (entries : List ReportEntry) (run : VersionRun) : ReportEntry :=
  match entries.getLast? with
  | none => ⟨run, false, []⟩
  | some last => compare last.run run

end VersionRun

namespace Report

/-- The versions to be run: all of them or the first one only. -/
def chosen (versions : List Version) (regression : Bool) : List Version :=
  versions.take (if regression then versions.length else 1)

/-- Run a snippet on all versions if that is forced or if the snippet asks for it, and else on the
first one only. -/
def ofSnippet (versions : List Version) (force : Bool) (options : BlockOptions)
    (snippet : Snippet) : Report :=
  let regression := force || snippet.asksForRegression
  let entries := (chosen versions regression).foldl (fun entries version ↦
    entries ++ [VersionRun.nextEntry entries (VersionRun.ofVersion options snippet version)]) []
  ⟨entries, regression⟩

def ofText (versions : List Version) (force : Bool) (options : BlockOptions)
    (text fileName : String) : Report :=
  ofSnippet versions force options (Snippet.parse text fileName)

def summary (report : Report) : ReportSummary where
  versions := report.entries.length
  distinct := (report.entries.filter fun entry ↦ !entry.sameAsPrevious).length
  failed := (report.entries.filter fun entry ↦ entry.run.outcome.isFailure).length

def firstDivergence (report : Report) : Option ReportEntry :=
  report.entries.tail.find? fun entry ↦ !entry.sameAsPrevious

/-- What stands for the block of an entry that is the same as the one before it. -/
def sameNote : String := "(same as previous)"

/-- What stands below the header of an entry. -/
def body (medium : Medium) (entry : ReportEntry) : String :=
  if entry.sameAsPrevious then sameNote else medium.literal entry.run.block

def renderEntry (medium : Medium) (entry : ReportEntry) : String :=
  medium.sectionHeader entry.run.label ++ "\n" ++ body medium entry

def render (report : Report) (medium : Medium) : String :=
  Text.stack (report.entries.map (renderEntry medium))

def renderEntryChanges (medium : Medium) (entry : ReportEntry) : String :=
  medium.sectionHeader entry.run.label ++ "\n" ++
    medium.literal (Text.stack (entry.changes.flatMap LineChange.marked))

def renderChanges (report : Report) (medium : Medium) : String :=
  Text.stack ((report.entries.filter fun entry ↦ entry.changes.any LineChange.isChange).map
    (renderEntryChanges medium))

end Report

end VersionSweep
