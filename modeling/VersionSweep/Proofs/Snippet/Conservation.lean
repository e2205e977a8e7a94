import VersionSweep.Proofs.Snippet.Sections
import VersionSweep.Proofs.Text.Lines

/-!
# Conservation of lines

Every line of a text is found again in its snippet, in order and unaltered: a directive for a
setting as a setting with its number, and a line of the program in the file of its section.  Only
the blank lines in front of a file are dropped.  The files do not depend on how the line breaks are
written, nor on lines that are directives for settings.
-/

namespace VersionSweep

namespace Entry

def isSetting : Entry → Bool
  | .setting _ _ _ => true
  | .file _ _ => false

def lines : Entry → List String
  | .setting _ _ _ => []
  | .file _ content => Text.fileLines content

theorem lines_of_isSetting {entry : Entry} (h : entry.isSetting = true) : entry.lines = [] := by
  cases entry with
  | setting name value line => rfl
  | file name content => cases h

theorem isEmptyFile_of_isSetting {entry : Entry} (h : entry.isSetting = true) :
    entry.isEmptyFile = false := by
  cases entry with
  | setting name value line => rfl
  | file name content => cases h

end Entry

namespace Section

variable {current other part : Section} {parts : List Section} {number : Nat} {line : String}
  {lines : List String} {directive : Directive}

/-- What holds of the sections of a text: settings are noted as such, and no line has a line feed in
it. -/
structure Proper (part : Section) : Prop where
  settings : ∀ entry ∈ part.settings, entry.isSetting = true
  lines : ∀ line ∈ part.lines, '\n' ∉ line.toList

theorem proper_beginning (fileName : String) : (beginning fileName).Proper :=
  ⟨fun _ h ↦ (List.not_mem_nil h).elim, fun _ h ↦ (List.not_mem_nil h).elim⟩

/-- Lines without line feeds make proper sections of a proper one. -/
theorem Proper.split (h : current.Proper) (hlines : ∀ line ∈ lines, '\n' ∉ line.toList)
    (number : Nat) : ∀ part ∈ current.split number lines, part.Proper := by
  induction lines generalizing current number with
  | nil => exact List.forall_mem_singleton.2 h
  | cons line rest ih =>
    obtain ⟨hline, hrest⟩ := List.forall_mem_cons.1 hlines
    cases hparse : Directive.parse line with
    | none =>
      rw [split_of_source hparse]
      have hlonger : Proper { current with lines := current.lines ++ [line] } :=
        ⟨h.settings, List.forall_mem_append.2 ⟨h.lines, List.forall_mem_singleton.2 hline⟩⟩
      exact ih hlonger hrest _
    | some directive =>
      cases hname : directive.isFileName with
      | true =>
        rw [split_of_fileName hparse hname]
        exact List.forall_mem_cons.2 ⟨h, ih (proper_beginning directive.raw) hrest _⟩
      | false =>
        rw [split_of_setting hparse hname]
        have hlonger : Proper { current with
            settings := current.settings ++ [.setting directive.name directive.raw number] } :=
          ⟨List.forall_mem_append.2 ⟨h.settings, List.forall_mem_singleton.2 rfl⟩, h.lines⟩
        exact ih hlonger hrest _

section Entries

theorem lines_file (h : part.Proper) : part.file.lines = part.source := by
  refine Text.fileLines_joinLines (fun line hline ↦ ?_) source_eq_nil_of_joinLines
  exact h.lines line ((List.dropWhile_suffix _).subset hline)

theorem flatMap_lines_settings (h : part.Proper) : part.settings.flatMap Entry.lines = [] :=
  List.flatMap_eq_nil_iff.2 fun entry hentry ↦ Entry.lines_of_isSetting (h.settings entry hentry)

/-- The files have the lines of the sections. -/
theorem flatMap_lines_entries (h : ∀ part ∈ parts, part.Proper) :
    (entries parts).flatMap Entry.lines = parts.flatMap source := by
  fun_induction entries parts with
  | case1 => rfl
  | case2 last =>
    have hlast := List.forall_mem_singleton.1 h
    rw [List.flatMap_append, flatMap_lines_settings hlast, List.flatMap_singleton,
      List.flatMap_singleton, lines_file hlast, List.nil_append]
  | case3 part next rest ih =>
    obtain ⟨hpart, hrest⟩ := List.forall_mem_cons.1 h
    have hclosed : part.closed.flatMap Entry.lines = part.source := by
      rw [closed, List.flatMap_append, flatMap_lines_settings hpart, List.nil_append]
      split
      · rename_i hsource
        rw [hsource, List.flatMap_nil]
      · rw [List.flatMap_singleton, lines_file hpart]
    rw [List.flatMap_append, ih hrest, hclosed]
    exact List.flatMap_cons.symm

/-- The settings among the entries are those of the sections. -/
theorem filter_isSetting_entries (h : ∀ part ∈ parts, part.Proper) :
    (entries parts).filter Entry.isSetting = parts.flatMap settings := by
  fun_induction entries parts with
  | case1 => rfl
  | case2 last =>
    have hlast := List.filter_eq_self.2 (List.forall_mem_singleton.1 h).settings
    rw [List.filter_append, hlast, List.flatMap_singleton]
    exact List.append_nil _
  | case3 part next rest ih =>
    obtain ⟨hpart, hrest⟩ := List.forall_mem_cons.1 h
    have hclosed : part.closed.filter Entry.isSetting = part.settings := by
      rw [closed, List.filter_append, List.filter_eq_self.2 hpart.settings]
      split
      · exact List.append_nil _
      · exact List.append_nil _
    rw [List.filter_append, ih hrest, hclosed]
    exact List.flatMap_cons.symm

theorem not_isEmptyFile_of_mem_closed (h : part.Proper) :
    ∀ entry ∈ part.closed, entry.isEmptyFile = false := by
  intro entry hentry
  obtain hentry | hentry := List.mem_append.1 hentry
  · exact Entry.isEmptyFile_of_isSetting (h.settings entry hentry)
  · split at hentry
    · cases hentry
    · rename_i hsource
      obtain rfl := List.mem_singleton.1 hentry
      exact Bool.eq_false_iff.2 (mt (isEmptyFile_file part).1 hsource)

def bare (part : Section) : Section :=
  { part with settings := [] }

@[simp] theorem source_bare (part : Section) : part.bare.source = part.source := rfl

/-- Without the settings the entries are those of the sections without settings. -/
theorem filter_not_isSetting_entries (h : ∀ part ∈ parts, part.Proper) :
    (entries parts).filter (!·.isSetting) = entries (parts.map bare) := by
  have hsettings (part : Section) (hpart : part.Proper) :
      part.settings.filter (!·.isSetting) = [] :=
    List.filter_eq_nil_iff.2 fun entry hentry ↦ by simp [hpart.settings entry hentry]
  fun_induction entries parts with
  | case1 => rfl
  | case2 last =>
    rw [List.filter_append, hsettings last (List.forall_mem_singleton.1 h)]
    rfl
  | case3 part next rest ih =>
    obtain ⟨hpart, hrest⟩ := List.forall_mem_cons.1 h
    have hclosed : part.closed.filter (!·.isSetting) = part.bare.closed := by
      rw [closed, List.filter_append, hsettings part hpart, closed, source_bare]
      split <;> rfl
    rw [List.filter_append, ih hrest, hclosed]
    rfl

end Entries

/-- The lines of the sections are the lines of the program, cut where a file begins. -/
theorem map_lines_split (current : Section) (number : Nat) (lines : List String) :
    (current.split number lines).map Section.lines =
      ((lines.splitOnP Directive.startsFile).map (·.filter Directive.isProgramLine)).modifyHead
        (current.lines ++ ·) := by
  induction lines generalizing current number with
  | nil => simp [split]
  | cons line rest ih =>
    obtain ⟨first, others, hrest⟩ :=
      List.exists_cons_of_ne_nil (List.splitOnP_ne_nil Directive.startsFile rest)
    rw [List.splitOnP_cons_eq_if_modifyHead]
    cases hparse : Directive.parse line with
    | none =>
      rw [split_of_source hparse, ih, hrest]
      simp [Directive.startsFile, Directive.isProgramLine, hparse]
    | some directive =>
      cases hname : directive.isFileName with
      | true =>
        rw [split_of_fileName hparse hname, List.map_cons, ih, hrest]
        simp [Directive.startsFile, beginning, hparse, hname]
      | false =>
        rw [split_of_setting hparse hname, ih, hrest]
        simp [Directive.startsFile, Directive.isProgramLine, hparse, hname]

/-- The settings of the sections are what the lines set. -/
theorem flatMap_settings_split (current : Section) (number : Nat) (lines : List String) :
    (current.split number lines).flatMap settings =
      current.settings ++
        (lines.zipIdx number).filterMap fun (line, number) ↦ Directive.setting? line number := by
  induction lines generalizing current number with
  | nil => simp [split]
  | cons line rest ih =>
    rw [List.zipIdx_cons]
    cases hparse : Directive.parse line with
    | none =>
      rw [split_of_source hparse, ih]
      simp [Directive.setting?, hparse]
    | some directive =>
      cases hname : directive.isFileName with
      | true =>
        rw [split_of_fileName hparse hname, List.flatMap_cons, ih]
        simp [Directive.setting?, beginning, hparse, hname]
      | false =>
        rw [split_of_setting hparse hname, ih]
        simp [Directive.setting?, hparse, hname]

/-- But for the settings, neither these nor the numbers of the lines are of influence. -/
theorem map_bare_split (h : current.bare = other.bare) (number otherNumber : Nat)
    (lines : List String) :
    (current.split number lines).map bare = (other.split otherNumber lines).map bare := by
  obtain ⟨hfile, hlines⟩ : current.fileName = other.fileName ∧ current.lines = other.lines := by
    simpa [bare] using h
  induction lines generalizing current other number otherNumber with
  | nil => exact congrArg (fun part ↦ [part]) h
  | cons line rest ih =>
    cases hparse : Directive.parse line with
    | none =>
      rw [split_of_source hparse, split_of_source hparse]
      apply ih <;> simp [bare, hfile, hlines]
    | some directive =>
      cases hname : directive.isFileName with
      | true =>
        rw [split_of_fileName hparse hname, split_of_fileName hparse hname, List.map_cons,
          List.map_cons, h]
        exact congrArg _ (ih rfl _ _ rfl rfl)
      | false =>
        rw [split_of_setting hparse hname, split_of_setting hparse hname]
        apply ih <;> simp [bare, hfile, hlines]

/-- One more line for a setting makes no difference but for the settings. -/
theorem map_bare_split_insertIdx (hparse : Directive.parse line = some directive)
    (hname : directive.isFileName = false) (current : Section) (number place : Nat)
    (lines : List String) :
    (current.split number (lines.insertIdx place line)).map bare =
      (current.split number lines).map bare := by
  induction place generalizing current number lines with
  | zero =>
    rw [List.insertIdx_zero, split_of_setting hparse hname]
    apply map_bare_split
    rfl
  | succ place ih =>
    cases lines with
    | nil => rw [List.insertIdx_succ_nil]
    | cons first rest =>
      rw [List.insertIdx_succ_cons]
      cases hfirst : Directive.parse first with
      | none => rw [split_of_source hfirst, split_of_source hfirst, ih]
      | some next =>
        cases hnext : next.isFileName with
        | true =>
          rw [split_of_fileName hfirst hnext, split_of_fileName hfirst hnext, List.map_cons,
            List.map_cons, ih]
        | false => rw [split_of_setting hfirst hnext, split_of_setting hfirst hnext, ih]

end Section

namespace Snippet

section Parse

variable (text fileName : String)

theorem proper_sections : ∀ part ∈ sections text fileName, part.Proper :=
  (Section.proper_beginning fileName).split (fun _ h ↦ Text.not_mem_of_mem_splitLines h) 1

/-- The files have the lines of the program. -/
theorem flatMap_fileLines_files :
    (parse text fileName).files.flatMap (fun file ↦ Text.fileLines file.2) =
      ((Text.splitLines text).splitOnP Directive.startsFile).flatMap fun part ↦
        (part.filter Directive.isProgramLine).dropWhile Text.isBlankLine := by
  have hfiles (entries : List Entry) :
      (Snippet.mk entries).files.flatMap (fun file ↦ Text.fileLines file.2) =
        entries.flatMap Entry.lines := by
    induction entries with
    | nil => rfl
    | cons entry rest ih =>
      rw [List.flatMap_cons, ← ih]
      cases entry <;> rfl
  have hlines := Section.map_lines_split (Section.beginning fileName) 1 (Text.splitLines text)
  have hhead : List.modifyHead ((Section.beginning fileName).lines ++ ·) = id := by
    funext parts
    cases parts <;> rfl
  calc (parse text fileName).files.flatMap (fun file ↦ Text.fileLines file.2)
      = (sections text fileName).flatMap Section.source := by
        rw [hfiles, entries_parse, Section.flatMap_lines_entries (proper_sections text fileName)]
    _ = ((sections text fileName).map Section.lines).flatMap (·.dropWhile Text.isBlankLine) := by
        rw [List.flatMap_map]
        rfl
    _ = _ := by rw [sections, hlines, hhead, id, List.flatMap_map]

/-- The settings are what the lines set, with their numbers. -/
theorem filter_isSetting_parse :
    (parse text fileName).entries.filter Entry.isSetting =
      ((Text.splitLines text).zipIdx 1).filterMap fun (line, number) ↦
        Directive.setting? line number := by
  rw [entries_parse, Section.filter_isSetting_entries (proper_sections text fileName), sections,
    Section.flatMap_settings_split]
  rfl

/-- There is a file at the end, and only that one may be empty. -/
theorem exists_file_at_end :
    ∃ before name content, (parse text fileName).entries = before ++ [.file name content] ∧
      ∀ entry ∈ before, entry.isEmptyFile = false := by
  have hproper := proper_sections text fileName
  obtain ⟨parts, last, hparts⟩ := exists_sections_eq_concat text fileName
  rw [hparts] at hproper
  refine ⟨parts.flatMap Section.closed ++ last.settings, last.fileName,
    Text.joinLines last.source, ?_, fun entry hentry ↦ ?_⟩
  · rw [entries_parse, hparts, Section.entries_concat]
    rfl
  · obtain hentry | hentry := List.mem_append.1 hentry
    · obtain ⟨part, hpart, hentry⟩ := List.mem_flatMap.1 hentry
      exact Section.not_isEmptyFile_of_mem_closed
        (hproper part (List.mem_append_left _ hpart)) entry hentry
    · have hlast : last.Proper := hproper last (List.mem_append_right _ (List.mem_singleton_self _))
      exact Entry.isEmptyFile_of_isSetting (hlast.settings entry hentry)

theorem parse_addReturns (chosen : Nat → Bool) :
    parse (Text.addReturns chosen text) fileName = parse text fileName := by
  rw [parse, Text.splitLines_addReturns, ← parse]

/-- The files are those of the sections without their settings. -/
theorem files_parse :
    (parse text fileName).files =
      (Snippet.mk (Section.entries ((sections text fileName).map Section.bare))).files := by
  rw [← Section.filter_not_isSetting_entries (proper_sections text fileName), ← entries_parse,
    files, files, List.filterMap_filter]
  congr 1
  funext entry
  cases entry <;> rfl

theorem files_parse_insertLine (place : Nat) {line : String} {directive : Directive}
    (hfeed : '\n' ∉ line.toList)
    (hparse : Directive.parse (String.ofList (Text.dropReturn line.toList)) = some directive)
    (hname : directive.isFileName = false) :
    (parse (Text.insertLine place line text) fileName).files = (parse text fileName).files := by
  rw [files_parse, files_parse, sections, sections, Text.splitLines_insertLine place hfeed,
    Section.map_bare_split_insertIdx hparse hname]

/-- Every line of a text is in its snippet just once, unaltered and in its place, but for the blank
lines in front of a file; and the files are the same for other line breaks and more settings. -/
theorem parse_conserves_lines :
    (parse text fileName).files.flatMap (fun file ↦ Text.fileLines file.2) =
        (((Text.splitLines text).splitOnP Directive.startsFile).flatMap fun part ↦
          (part.filter Directive.isProgramLine).dropWhile Text.isBlankLine) ∧
      (parse text fileName).entries.filter Entry.isSetting =
        (((Text.splitLines text).zipIdx 1).filterMap fun (line, number) ↦
          Directive.setting? line number) ∧
      (∃ before name content, (parse text fileName).entries = before ++ [.file name content] ∧
        ∀ entry ∈ before, entry.isEmptyFile = false) ∧
      (∀ chosen : Nat → Bool,
        (parse (Text.addReturns chosen text) fileName).files = (parse text fileName).files) ∧
      ∀ (place : Nat) (line : String) (directive : Directive), '\n' ∉ line.toList →
        Directive.parse (String.ofList (Text.dropReturn line.toList)) = some directive →
        directive.isFileName = false →
        (parse (Text.insertLine place line text) fileName).files =
          (parse text fileName).files := by
  refine ⟨flatMap_fileLines_files text fileName, filter_isSetting_parse text fileName,
    exists_file_at_end text fileName, fun chosen ↦ ?_, fun place line directive ↦ ?_⟩
  · rw [parse_addReturns]
  · exact files_parse_insertLine text fileName place

/-- A text of two sections, with carriage returns in all places, and with one more setting. -/
theorem parse_conserves_lines_two_sections :
    (parse "\n// @strict\na\r\r\nb\n// @filename: c.ts\n\n" "repro.ts").entries =
        [.setting "strict" "true" 2, .file "repro.ts" "a\r\r\nb", .file "c.ts" ""] ∧
      (parse (Text.addReturns (fun _ ↦ true) "\n// @strict\na\r\r\nb\n// @filename: c.ts\n\n")
        "repro.ts").files = [("repro.ts", "a\r\r\nb"), ("c.ts", "")] ∧
      (parse (Text.insertLine 3 "//@target: es5\r"
        "\n// @strict\na\r\r\nb\n// @filename: c.ts\n\n") "repro.ts").files =
          [("repro.ts", "a\r\r\nb"), ("c.ts", "")] := by
  obtain ⟨-, -, -, hreturns, hinsert⟩ := parse_conserves_lines
    "\n// @strict\na\r\r\nb\n// @filename: c.ts\n\n" "repro.ts"
  have hentries : (parse "\n// @strict\na\r\r\nb\n// @filename: c.ts\n\n" "repro.ts").entries =
      [.setting "strict" "true" 2, .file "repro.ts" "a\r\r\nb", .file "c.ts" ""] := by
    decide +kernel
  refine ⟨hentries, ?_, ?_⟩
  · rw [hreturns, files, hentries]
    rfl
  · rw [hinsert 3 "//@target: es5\r" (.value "target" "es5") (by decide) (by decide +kernel) rfl,
      files, hentries]
    rfl

end Parse

end Snippet

end VersionSweep
