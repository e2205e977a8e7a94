import VersionSweep.Snippet.Collector

/-!
# Sections of a snippet

A directive for a file name begins a new section of a snippet.  What a section has is the settings
in it and, without the blank ones in front, the lines that are no directives.  The entries of a
snippet are those of its sections, one section after the other: first the settings, then the file.
Only the last section may have an empty file, any other one without lines has no file at all.
-/

namespace VersionSweep

namespace Directive

/-- Whether a line is a directive that begins a new file. -/
def startsFile (line : String) : Bool :=
  (parse line).any isFileName

def isProgramLine (line : String) : Bool :=
  (parse line).isNone

/-- What a line with the given number sets, if it is a directive for a setting. -/
def setting? (line : String) (number : Nat) : Option Entry :=
  match parse line with
  | none => none
  | some directive =>
    if directive.isFileName then none
    else some (.setting directive.name directive.raw number)

end Directive

def Entry.isEmptyFile : Entry → Bool
  | .setting _ _ _ => false
  | .file _ content => content == ""

def Text.isBlankLine (line : String) : Bool :=
  allBlank line.toList

/-- What stands under one file name: the settings, and the lines that are no directives. -/
structure Section where
  fileName : String
  settings : List Entry
  lines : List String

namespace Section

def beginning (fileName : String) : Section :=
  ⟨fileName, [], []⟩

def source (part : Section) : List String :=
  part.lines.dropWhile Text.isBlankLine

def file (part : Section) : Entry :=
  .file part.fileName (Text.joinLines part.source)

def closed (part : Section) : List Entry :=
  part.settings ++ if part.source = [] then [] else [part.file]

def entries : List Section → List Entry
  | [] => []
  | [last] => last.settings ++ [last.file]
  | part :: next :: rest => part.closed ++ entries (next :: rest)

/-- The sections that a section becomes when lines are added, the first one having the given
number. -/
def split (current : Section) (number : Nat) : List String → List Section
  | [] => [current]
  | line :: rest =>
    match Directive.parse line with
    | none => split { current with lines := current.lines ++ [line] } (number + 1) rest
    | some directive =>
      if directive.isFileName then current :: split (beginning directive.raw) (number + 1) rest
      else
        split { current with
          settings := current.settings ++ [.setting directive.name directive.raw number] }
          (number + 1) rest

variable {current part : Section} {parts others : List Section} {number : Nat} {line : String}
  {lines : List String} {directive : Directive}

section Split

theorem split_of_source (h : Directive.parse line = none) :
    split current number (line :: lines) =
      split { current with lines := current.lines ++ [line] } (number + 1) lines := by
  rw [split, h]

theorem split_of_fileName (h : Directive.parse line = some directive)
    (hname : directive.isFileName = true) :
    split current number (line :: lines) =
      current :: split (beginning directive.raw) (number + 1) lines := by
  rw [split, h]
  exact if_pos hname

theorem split_of_setting (h : Directive.parse line = some directive)
    (hname : directive.isFileName = false) :
    split current number (line :: lines) =
      split { current with
        settings := current.settings ++ [.setting directive.name directive.raw number] }
        (number + 1) lines := by
  rw [split, h]
  exact if_neg (by rw [hname]; decide)

theorem split_ne_nil (current : Section) (number : Nat) (lines : List String) :
    split current number lines ≠ [] := by
  fun_induction split current number lines with
  | case1 => exact List.cons_ne_nil _ _
  | case2 _ _ _ _ _ ih => exact ih
  | case3 => exact List.cons_ne_nil _ _
  | case4 _ _ _ _ _ _ _ ih => exact ih

end Split

theorem entries_cons (part : Section) (h : parts ≠ []) :
    entries (part :: parts) = part.closed ++ entries parts := by
  obtain ⟨next, rest, rfl⟩ := List.exists_cons_of_ne_nil h
  rfl

theorem entries_append (parts : List Section) (h : others ≠ []) :
    entries (parts ++ others) = parts.flatMap closed ++ entries others := by
  induction parts with
  | nil => rfl
  | cons part rest ih =>
    have hne : rest ++ others ≠ [] := List.append_ne_nil_of_right_ne_nil rest h
    rw [List.cons_append, entries_cons part hne, ih, List.flatMap_cons, List.append_assoc]

theorem entries_concat (parts : List Section) (last : Section) :
    entries (parts ++ [last]) = (parts.flatMap closed ++ last.settings) ++ [last.file] := by
  rw [entries_append parts (List.cons_ne_nil last []), List.append_assoc]
  rfl

/-- A section's file is empty only if it has no lines, its first line not being blank. -/
theorem source_eq_nil_of_joinLines (h : Text.joinLines part.source = "") : part.source = [] := by
  cases hsource : part.source with
  | nil => rfl
  | cons first rest =>
    have hblank := List.head?_dropWhile_not Text.isBlankLine part.lines
    rw [← source, hsource] at hblank
    have hempty : first = "" := by
      rw [hsource, Text.joinLines] at h
      cases rest with
      | nil => simpa using h
      | cons next rest =>
        rw [String.intercalate_cons_cons, String.append_eq_empty_iff,
          String.append_eq_empty_iff] at h
        exact h.1.1
    rw [hempty] at hblank
    cases hblank

theorem isEmptyFile_file (part : Section) : part.file.isEmptyFile = true ↔ part.source = [] := by
  rw [file, Entry.isEmptyFile, beq_iff_eq]
  exact ⟨source_eq_nil_of_joinLines, fun h ↦ by rw [h]; rfl⟩

end Section

namespace Collector

/-- Whether a collector has come to a section, the entries of the sections before it being given. -/
structure At (before : List Entry) (current : Section) (collector : Collector) : Prop where
  fileName : collector.fileName = current.fileName
  lines : collector.lines = current.source
  entries : collector.entries = before ++ current.settings

variable {before : List Entry} {current : Section} {collector : Collector} {line : String}
  {directive : Directive}

theorem At.finish (h : collector.At before current) :
    collector.finish.entries = before ++ Section.entries [current] := by
  rw [Collector.finish, close, h.entries, h.fileName, h.lines, List.append_assoc]
  rfl

theorem At.takeSource (h : collector.At before current) (line : String) :
    (collector.takeSource line).At before { current with lines := current.lines ++ [line] } := by
  refine ⟨?_, ?_, ?_⟩
  · rw [← h.fileName, Collector.takeSource]
    split <;> rfl
  -- Blank lines are passed over as long as there is nothing else.
  · rw [Section.source, List.dropWhile_append, ← Section.source, Collector.takeSource, h.lines]
    cases hsource : current.source with
    | nil =>
      cases hblank : Text.allBlank line.toList with
      | true => simp [Text.isBlankLine, hblank, h.lines, hsource]
      | false => simp [Text.isBlankLine, hblank]
    | cons first rest => simp
  · rw [← h.entries, Collector.takeSource]
    split <;> rfl

theorem At.feed_setting (h : collector.At before current)
    (hparse : Directive.parse line = some directive) (hname : directive.isFileName = false)
    (number : Nat) :
    (collector.feed number line).At before { current with
      settings := current.settings ++ [.setting directive.name directive.raw number] } := by
  have hfeed : collector.feed number line = { collector with
      entries := collector.entries ++ [.setting directive.name directive.raw number] } := by
    rw [feed, hparse]
    exact if_neg (by rw [hname]; decide)
  rw [hfeed]
  exact ⟨h.fileName, h.lines, by simp [h.entries]⟩

theorem At.feed_fileName (h : collector.At before current)
    (hparse : Directive.parse line = some directive) (hname : directive.isFileName = true)
    (number : Nat) :
    (collector.feed number line).At (before ++ current.closed)
      (Section.beginning directive.raw) := by
  have hfeed : collector.feed number line =
      { (if collector.lines.isEmpty then collector else collector.close) with
        fileName := directive.raw } := by
    rw [feed, hparse]
    exact if_pos hname
  rw [hfeed, Section.closed]
  by_cases hsource : current.source = []
  · have hlines : collector.lines = [] := h.lines.trans hsource
    refine ⟨rfl, ?_, ?_⟩
    · simp [hlines, Section.source, Section.beginning]
    · simp [hlines, hsource, h.entries, Section.beginning]
  · have hlines : collector.lines ≠ [] := fun hnil ↦ hsource (h.lines.symm.trans hnil)
    refine ⟨rfl, ?_, ?_⟩
    · simp [hlines, close, Section.source, Section.beginning]
    · simp [close, hsource, h.entries, h.fileName, h.lines, Section.beginning, Section.file]

/-- From a section on, lines give the entries of the sections that they make of it. -/
theorem At.entries_feedAll (h : collector.At before current) (number : Nat)
    (lines : List String) :
    (collector.feedAll number lines).finish.entries =
      before ++ Section.entries (current.split number lines) := by
  induction lines generalizing collector before current number with
  | nil => exact h.finish
  | cons line rest ih =>
    rw [feedAll]
    cases hparse : Directive.parse line with
    | none =>
      have hfeed : collector.feed number line = collector.takeSource line := by rw [feed, hparse]
      rw [hfeed, Section.split_of_source hparse]
      exact ih (h.takeSource line) (number + 1)
    | some directive =>
      cases hname : directive.isFileName with
      | true =>
        rw [Section.split_of_fileName hparse hname,
          Section.entries_cons _ (Section.split_ne_nil _ _ _), ← List.append_assoc]
        exact ih (h.feed_fileName hparse hname number) (number + 1)
      | false =>
        rw [Section.split_of_setting hparse hname]
        exact ih (h.feed_setting hparse hname number) (number + 1)

end Collector

namespace Snippet

def sections (text fileName : String) : List Section :=
  (Section.beginning fileName).split 1 (Text.splitLines text)

/-- A snippet has the entries of its sections. -/
theorem entries_parse (text fileName : String) :
    (parse text fileName).entries = Section.entries (sections text fileName) := by
  have hstart : (Collector.start fileName).At [] (Section.beginning fileName) := ⟨rfl, rfl, rfl⟩
  exact hstart.entries_feedAll 1 (Text.splitLines text)

theorem exists_sections_eq_concat (text fileName : String) :
    ∃ parts last, sections text fileName = parts ++ [last] :=
  ⟨_, _, (List.dropLast_concat_getLast (Section.split_ne_nil _ _ _)).symm⟩

end Snippet

end VersionSweep
