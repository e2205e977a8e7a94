import VersionSweep.Proofs.Report.CollapsedReports
import VersionSweep.Proofs.Text.BlockLines

/-!
# Drift in line breaks

An entry is marked if its block is the very text before it, but changes are listed between the lines
of two blocks.  What the lines leave out of a text is how its line breaks are written and whether
the last line is closed.  A version whose block differs from the one before in nothing else is not
marked and has no change to list either.
-/

namespace VersionSweep

namespace LineChange

theorem any_isChange_between (olds news : List String) :
    (between olds news).any isChange = true ↔ olds ≠ news := by
  induction olds, news using between.induct with
  | case1 => simp [between]
  | case2 old olds ih => simp [between, isChange]
  | case3 new news ih => simp [between, isChange]
  | case4 old olds new news ih =>
    by_cases h : old = new
    · simp [between, isChange, ih, h]
    · simp [between, isChange, h]

/-- A comparison of two blocks has a change exactly if they are not the same but for their line
breaks. -/
theorem any_isChange_ofBlocks (old new : String) :
    (ofBlocks old new).any isChange = true ↔ Text.folded old ≠ Text.folded new := by
  rw [ofBlocks, any_isChange_between, ne_eq, Text.blockLines_eq_iff]

end LineChange

namespace Report

/-- An entry lists a change exactly if its block is not the one before it but for line breaks. -/
theorem any_isChange_entries {runs : List VersionRun} {i : Nat} {earlier later : ReportEntry}
    (hearlier : (VersionRun.entries runs)[i]? = some earlier)
    (hlater : (VersionRun.entries runs)[i + 1]? = some later) :
    later.changes.any LineChange.isChange = true ↔
      Text.folded earlier.run.block ≠ Text.folded later.run.block := by
  have hchanges := (comparedWith_of_getElem? runs hlater).changes
  rw [blockBefore?, hearlier, Option.map_some, Option.elim_some] at hchanges
  rw [hchanges]
  split
  · rename_i hsame
    simp [hsame]
  · exact LineChange.any_isChange_ofBlocks _ _

/-- Changes are listed between two blocks exactly if they differ in more than line breaks.  So among
the changes of a report there is a section for an entry after the first one exactly if its block
differs that way from the one before it, though the entry is marked only if the two are the very
same. -/
theorem lists_folded_differences (versions : List Version) (force : Bool) (options : BlockOptions)
    (snippet : Snippet) :
    let report := ofSnippet versions force options snippet
    (∀ old new : String, (LineChange.ofBlocks old new).any LineChange.isChange = true ↔
      Text.folded old ≠ Text.folded new) ∧
    (∀ medium, report.renderChanges medium =
      Text.stack ((report.entries.filter fun entry ↦ entry.changes.any LineChange.isChange).map
        fun entry ↦ medium.sectionHeader entry.run.label ++ "\n" ++
          medium.literal (Text.stack (entry.changes.flatMap LineChange.marked)))) ∧
      ∀ (i : Nat) (earlier later : ReportEntry),
        report.entries[i]? = some earlier → report.entries[i + 1]? = some later →
        (later.sameAsPrevious = true ↔ earlier.run.block = later.run.block) ∧
          (later.changes.any LineChange.isChange = true ↔
            Text.folded earlier.run.block ≠ Text.folded later.run.block) := by
  intro report
  refine ⟨LineChange.any_isChange_ofBlocks, fun medium ↦ rfl, ?_⟩
  intro i earlier later hearlier hlater
  rw [entries_ofSnippet] at hearlier hlater
  exact ⟨sameAsPrevious_entries hearlier hlater, any_isChange_entries hearlier hlater⟩

/-- A carriage return before a line feed makes two blocks different, and two versions with it for
the only difference have entries that are not marked and no change to list. -/
theorem unlisted_of_line_end :
    let old := "--- output a.js ---\nvar a = 1;\r\nvar b = 2;"
    let new := "--- output a.js ---\nvar a = 1;\nvar b = 2;"
    let v : Version := ⟨"2.0.0", ⟨"2.0.0"⟩, .ofFiles "old\r\nlib" []⟩
    let w : Version := ⟨"1.0.0", ⟨"1.0.0"⟩, .ofFiles "old\nlib" []⟩
    let report := ofSnippet [v, w] true ⟨none, true⟩ (Snippet.parse "let n = 1;" "a.ts")
    old ≠ new ∧ (LineChange.ofBlocks old new).any LineChange.isChange = false ∧
      report.entries.map ReportEntry.sameAsPrevious = [false, false] ∧
      ∀ medium, report.renderChanges medium = "" := by
  intro old new v w report
  refine ⟨by decide, ?_, by decide +kernel, fun medium ↦ ?_⟩
  · rw [Bool.eq_false_iff, ne_eq, LineChange.any_isChange_ofBlocks, not_not]
    decide +kernel
  · let first := VersionRun.ofVersion ⟨none, true⟩ (Snippet.parse "let n = 1;" "a.ts") v
    let second := VersionRun.ofVersion ⟨none, true⟩ (Snippet.parse "let n = 1;" "a.ts") w
    have hsecond : (VersionRun.compare first second).changes.any LineChange.isChange = false := by
      have hearlier : (VersionRun.entries [first, second])[0]? = some ⟨first, false, []⟩ := rfl
      have hlater : (VersionRun.entries [first, second])[0 + 1]? =
          some (VersionRun.compare first second) := rfl
      rw [Bool.eq_false_iff, ne_eq, any_isChange_entries hearlier hlater, not_not]
      decide +kernel
    have hentries : report.entries = [⟨first, false, []⟩, VersionRun.compare first second] :=
      entries_ofSnippet [v, w] true ⟨none, true⟩ (Snippet.parse "let n = 1;" "a.ts")
    have hlisted :
        report.entries.filter (fun entry ↦ entry.changes.any LineChange.isChange) = [] := by
      rw [hentries, List.filter_cons_of_neg Bool.false_ne_true,
        List.filter_cons_of_neg (by rw [hsecond]; decide), List.filter_nil]
    rw [renderChanges, hlisted]
    rfl

end Report

end VersionSweep
