import VersionSweep.Proofs.Snippet.DirectiveGrammar
import VersionSweep.Proofs.Snippet.Sections
import VersionSweep.Proofs.Text.Lines

/-!
# Snippets put together

Two texts with a directive for a file name between them make one snippet.  Its sections are those of
the first text and then those of the second one, as if that were read by itself with the file name,
only that its lines are counted on.  So nothing in a snippet reaches over the beginning of a file.
-/

namespace VersionSweep

/-- An entry with its line so many lines further down. -/
def Entry.movedDown (count : Nat) : Entry → Entry
  | .setting name value line => .setting name value (line + count)
  | .file name content => .file name content

def Snippet.withoutEmptyEnd (snippet : Snippet) : List Entry :=
  if snippet.entries.getLast?.any Entry.isEmptyFile then snippet.entries.dropLast
  else snippet.entries

namespace Section

variable {current : Section} {number : Nat} {line : String} {lines : List String}
  {directive : Directive}

def movedDown (count : Nat) (part : Section) : Section :=
  { part with settings := part.settings.map (Entry.movedDown count) }

@[simp] theorem source_movedDown (count : Nat) (part : Section) :
    (part.movedDown count).source = part.source := rfl

@[simp] theorem file_movedDown (count : Nat) (part : Section) :
    (part.movedDown count).file = part.file := rfl

theorem closed_movedDown (count : Nat) (part : Section) :
    (part.movedDown count).closed = part.closed.map (Entry.movedDown count) := by
  rw [closed, closed, source_movedDown, file_movedDown, List.map_append]
  split <;> rfl

theorem entries_map_movedDown (count : Nat) (parts : List Section) :
    entries (parts.map (movedDown count)) = (entries parts).map (Entry.movedDown count) := by
  fun_induction entries parts with
  | case1 => rfl
  | case2 last =>
    rw [List.map_append]
    rfl
  | case3 part next rest ih =>
    rw [List.map_append, ← ih, ← closed_movedDown]
    rfl

/-- The lines of a section that is read later on are counted on, and nothing else is different. -/
theorem split_movedDown (count : Nat) (current : Section) (number : Nat) (lines : List String) :
    (current.movedDown count).split (number + count) lines =
      (current.split number lines).map (movedDown count) := by
  induction lines generalizing current number with
  | nil => rfl
  | cons line rest ih =>
    have hnumber : number + count + 1 = number + 1 + count := Nat.add_right_comm number count 1
    cases hparse : Directive.parse line with
    | none =>
      rw [split_of_source hparse, split_of_source hparse, hnumber, ← ih]
      rfl
    | some directive =>
      cases hname : directive.isFileName with
      | true =>
        rw [split_of_fileName hparse hname, split_of_fileName hparse hname, hnumber, List.map_cons,
          ← ih]
        rfl
      | false =>
        have hcurrent : { current.movedDown count with
              settings := (current.movedDown count).settings ++
                [.setting directive.name directive.raw (number + count)] } =
            movedDown count { current with
              settings := current.settings ++
                [.setting directive.name directive.raw number] } := by
          simp [movedDown, Entry.movedDown]
        rw [split_of_setting hparse hname, split_of_setting hparse hname, hnumber, ← ih, hcurrent]

/-- Behind a line for a file name the sections are those of the lines that follow. -/
theorem split_append_fileName (hparse : Directive.parse line = some directive)
    (hname : directive.isFileName = true) (current : Section) (number : Nat)
    (before after : List String) :
    current.split number (before ++ line :: after) =
      current.split number before ++
        (beginning directive.raw).split (number + before.length + 1) after := by
  induction before generalizing current number with
  | nil => rw [List.nil_append, split_of_fileName hparse hname]; rfl
  | cons first rest ih =>
    have hnumber : number + (first :: rest).length + 1 = number + 1 + rest.length + 1 := by
      rw [List.length_cons]
      omega
    rw [hnumber, List.cons_append]
    cases hfirst : Directive.parse first with
    | none => rw [split_of_source hfirst, split_of_source hfirst, ih]
    | some other =>
      cases hother : other.isFileName with
      | true =>
        rw [split_of_fileName hfirst hother, split_of_fileName hfirst hother, ih, List.cons_append]
      | false => rw [split_of_setting hfirst hother, split_of_setting hfirst hother, ih]

end Section

namespace Snippet

theorem withoutEmptyEnd_parse (text fileName : String) :
    (parse text fileName).withoutEmptyEnd = (sections text fileName).flatMap Section.closed := by
  obtain ⟨parts, last, hparts⟩ := exists_sections_eq_concat text fileName
  have hlast : last.closed =
      last.settings ++ if last.file.isEmptyFile = true then [] else [last.file] := by
    rw [Section.closed]
    simp only [Section.isEmptyFile_file]
  rw [withoutEmptyEnd, entries_parse, hparts, Section.entries_concat, List.getLast?_concat,
    List.dropLast_concat, List.flatMap_append, List.flatMap_singleton, hlast]
  cases hempty : last.file.isEmptyFile with
  | true => simp [hempty]
  | false => simp [hempty]

/-- A line feed would end the name, and blanks at its end would be taken for the end of the line. -/
theorem parse_fileNameLine {name : String} (hfeed : '\n' ∉ name.toList)
    (hend : ∀ c ∈ name.toList.getLast?, Text.isBlank c = false) :
    Directive.parse ("// @filename: " ++ name) = some (.value "filename" name) := by
  have hplain : "// @filename: " = "// @" ++ Directive.fileNameWord ++ ": " := by decide
  have hword : ∀ c ∈ "filename".toList, Text.isWord c = true := List.all_eq_true.1 (by decide)
  rw [hplain]
  exact Directive.parse_eq_value_iff.2 (Directive.isValue_plain (by decide) hword hfeed hend)

/-- Put behind a text and under a file name, a second text has the entries that it has by itself, on
lines counted on from there, and the first one has its own, but for an empty file at its end. -/
theorem entries_parse_junction (first second fileName : String) {name : String}
    (hfeed : '\n' ∉ name.toList) (hend : ∀ c ∈ name.toList.getLast?, Text.isBlank c = false) :
    (parse (first ++ "\n// @filename: " ++ name ++ "\n" ++ second) fileName).entries =
      (parse first fileName).withoutEmptyEnd ++
        (parse second name).entries.map (Entry.movedDown (first.toList.count '\n' + 2)) := by
  have htext : first ++ "\n// @filename: " ++ name ++ "\n" ++ second =
      first ++ "\n" ++ (("// @filename: " ++ name) ++ "\n" ++ second) := by
    have hfeed : "\n// @filename: " = "\n" ++ "// @filename: " := by decide
    simp only [hfeed, String.append_assoc]
  have hline : '\n' ∉ ("// @filename: " ++ name).toList := by
    rw [String.toList_append, List.mem_append]
    exact fun h ↦ h.elim (by decide) hfeed
  have hreturn : Text.dropReturn ("// @filename: " ++ name).toList =
      ("// @filename: " ++ name).toList := by
    apply if_neg
    intro hlast
    rw [String.toList_append, List.getLast?_append] at hlast
    cases hname : name.toList.getLast? with
    | none => rw [hname] at hlast; cases hlast
    | some last =>
      rw [hname] at hlast
      cases hlast
      exact absurd (hend '\r' hname) (by decide)
  have hlines : Text.splitLines (first ++ "\n// @filename: " ++ name ++ "\n" ++ second) =
      Text.splitLines first ++ ("// @filename: " ++ name) :: Text.splitLines second := by
    rw [htext, Text.splitLines_append, Text.splitLines_append, Text.splitLines_of_not_mem hline,
      hreturn, String.ofList_toList, List.singleton_append]
  have hnumber : 1 + (Text.splitLines first).length + 1 = 1 + (first.toList.count '\n' + 2) := by
    rw [Text.length_splitLines]
    omega
  have hsections : sections (first ++ "\n// @filename: " ++ name ++ "\n" ++ second) fileName =
      sections first fileName ++ (sections second name).map
        (Section.movedDown (first.toList.count '\n' + 2)) := by
    rw [sections, hlines, Section.split_append_fileName (parse_fileNameLine hfeed hend) rfl,
      hnumber, sections, sections, ← Section.split_movedDown]
    rfl
  have hne : (sections second name).map (Section.movedDown (first.toList.count '\n' + 2)) ≠ [] := by
    simpa [sections] using Section.split_ne_nil _ _ _
  rw [entries_parse, hsections, Section.entries_append _ hne, ← withoutEmptyEnd_parse,
    Section.entries_map_movedDown, ← entries_parse]

theorem entries_parse_junction_of_settings_and_blanks :
    (parse ("let a;\r\n// @strict\n// @filename: old.ts\n" ++ "\n// @filename: " ++ "src/b.ts" ++
      "\n" ++ "\n// @target: es5\nlet b;") "repro.ts").entries =
      [.setting "strict" "true" 2, .file "repro.ts" "let a;", .setting "target" "es5" 7,
        .file "src/b.ts" "let b;"] := by
  have hlast : "src/b.ts".toList.getLast? = some 's' := by decide
  have hend : ∀ c ∈ "src/b.ts".toList.getLast?, Text.isBlank c = false := by
    rw [hlast]
    rintro c ⟨⟩
    decide
  rw [entries_parse_junction _ _ "repro.ts" (by decide) hend]
  decide +kernel

end Snippet

end VersionSweep
