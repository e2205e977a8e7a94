import Mathlib.Data.List.Induction
import VersionSweep.Report.Regression

/-!
# Reports as rows of independent runs

A report is made by going through the versions in order and adding one entry behind the entries so
far, comparing with the last of them only.  No step looks at any other version, so the entries are
those of the runs that the versions make alone, each compared with the run right before it:
`entries_append` is one step and `entries_ofSnippet` the whole walk.
-/

namespace VersionSweep

namespace VersionRun

def compareAll (previous : VersionRun) : List VersionRun → List ReportEntry
  | [] => []
  | run :: rest => compare previous run :: compareAll run rest

def entries : List VersionRun → List ReportEntry
  | [] => []
  | first :: rest => ⟨first, false, []⟩ :: compareAll first rest

@[simp] theorem run_compare (previous run : VersionRun) : (compare previous run).run = run := by
  unfold compare
  split <;> rfl

theorem compareAll_append (previous : VersionRun) (runs : List VersionRun) (run : VersionRun) :
    compareAll previous (runs ++ [run]) =
      compareAll previous runs ++ [compare (runs.getLast?.getD previous) run] := by
  induction runs generalizing previous with
  | nil => rfl
  | cons first rest ih =>
    rw [List.cons_append, compareAll, ih, compareAll, List.cons_append]
    cases rest <;> simp [List.getLast?_cons]

theorem map_run_compareAll (previous : VersionRun) (runs : List VersionRun) :
    (compareAll previous runs).map ReportEntry.run = runs := by
  induction runs generalizing previous with
  | nil => rfl
  | cons first rest ih => simp [compareAll, ih]

theorem map_run_entries (runs : List VersionRun) :
    (entries runs).map ReportEntry.run = runs := by
  cases runs with
  | nil => rfl
  | cons first rest => simp [entries, map_run_compareAll]

@[simp] theorem length_entries (runs : List VersionRun) : (entries runs).length = runs.length := by
  rw [← List.length_map ReportEntry.run, map_run_entries]

theorem run_getElem?_entries (runs : List VersionRun) (i : Nat) :
    ((entries runs)[i]?).map ReportEntry.run = runs[i]? := by
  rw [← List.getElem?_map, map_run_entries]

theorem entries_append (runs : List VersionRun) (run : VersionRun) :
    entries (runs ++ [run]) = entries runs ++ [nextEntry (entries runs) run] := by
  cases runs with
  | nil => rfl
  | cons first rest =>
    have hlast : (entries (first :: rest)).getLast?.map ReportEntry.run =
        some (rest.getLast?.getD first) := by
      rw [← List.getLast?_map, map_run_entries, List.getLast?_cons]
    obtain ⟨last, hlast, hrun⟩ := Option.map_eq_some_iff.1 hlast
    rw [nextEntry, hlast]
    simp [entries, compareAll_append, hrun]

/-- A row of entries is made by going through the runs, each compared with the last entry so far. -/
theorem entries_eq_foldl (runs : List VersionRun) :
    entries runs = runs.foldl (fun made run ↦ made ++ [nextEntry made run]) [] := by
  induction runs using List.reverseRecOn with
  | nil => rfl
  | append_singleton runs run ih => simp [entries_append, ih]

end VersionRun

/-- What an entry has to say beside its run, given the block before it. -/
structure ReportEntry.ComparedWith (entry : ReportEntry) (before : Option String) : Prop where
  same : entry.sameAsPrevious = true ↔ before = some entry.run.block
  changes : entry.changes = before.elim [] fun old ↦
    if old = entry.run.block then [] else LineChange.ofBlocks old entry.run.block

namespace Report

/-- The block that the entry at a place is compared with; the first entry has none. -/
def blockBefore? (entries : List ReportEntry) : Nat → Option String
  | 0 => none
  | i + 1 => (entries[i]?).map fun entry ↦ entry.run.block

theorem blockBefore?_append {entries more : List ReportEntry} {i : Nat} (hi : i ≤ entries.length) :
    blockBefore? (entries ++ more) i = blockBefore? entries i := by
  cases i with
  | zero => rfl
  | succ i => rw [blockBefore?, blockBefore?, List.getElem?_append_left hi]

theorem blockBefore?_length (entries : List ReportEntry) :
    blockBefore? entries entries.length =
      entries.getLast?.map fun entry ↦ entry.run.block := by
  rcases List.eq_nil_or_concat entries with rfl | ⟨front, last, rfl⟩
  · rfl
  · simp [blockBefore?]

theorem comparedWith_nextEntry (entries : List ReportEntry) (run : VersionRun) :
    (VersionRun.nextEntry entries run).ComparedWith
      (entries.getLast?.map fun entry ↦ entry.run.block) := by
  unfold VersionRun.nextEntry
  cases entries.getLast? with
  | none => exact ⟨by simp, rfl⟩
  | some last =>
    by_cases h : last.run.block = run.block
    · exact ⟨by simp [VersionRun.compare, h], by simp [VersionRun.compare, h]⟩
    · exact ⟨by simp [VersionRun.compare, h], by simp [VersionRun.compare, h]⟩

/-- Every entry is compared with the entry right before it, by induction on the runs. -/
theorem comparedWith_of_getElem? (runs : List VersionRun) {i : Nat} {entry : ReportEntry}
    (h : (VersionRun.entries runs)[i]? = some entry) :
    entry.ComparedWith (blockBefore? (VersionRun.entries runs) i) := by
  induction runs using List.reverseRecOn with
  | nil => simp [VersionRun.entries] at h
  | append_singleton runs run ih =>
    rw [VersionRun.entries_append] at h ⊢
    have hi : i < (VersionRun.entries runs).length + 1 := by
      simpa using (List.getElem?_eq_some_iff.1 h).1
    rw [blockBefore?_append (Nat.le_of_lt_succ hi)]
    -- The entries before the new one stay, and the new one is compared with the last of them.
    rcases Nat.lt_succ_iff_lt_or_eq.1 hi with hlt | rfl
    · rw [List.getElem?_append_left hlt] at h
      exact ih h
    · have hentry : VersionRun.nextEntry (VersionRun.entries runs) run = entry := by
        simpa [-VersionRun.length_entries] using h
      rw [blockBefore?_length, ← hentry]
      exact comparedWith_nextEntry _ run

theorem entries_ofSnippet (versions : List Version) (force : Bool) (options : BlockOptions)
    (snippet : Snippet) :
    (ofSnippet versions force options snippet).entries =
      VersionRun.entries ((chosen versions (force || snippet.asksForRegression)).map
        (VersionRun.ofVersion options snippet)) := by
  rw [VersionRun.entries_eq_foldl, List.foldl_map]
  rfl

theorem length_chosen (versions : List Version) (regression : Bool) :
    (chosen versions regression).length =
      if regression then versions.length else min 1 versions.length := by
  rw [chosen, List.length_take]
  cases regression <;> simp

theorem getElem?_of_getElem?_chosen {versions : List Version} {regression : Bool} {i : Nat}
    {version : Version} (h : (chosen versions regression)[i]? = some version) :
    versions[i]? = some version := by
  rw [chosen, List.getElem?_take] at h
  exact (Option.ite_none_right_eq_some.1 h).2

theorem entries_ofSnippet_singleton (version : Version) (force : Bool) (options : BlockOptions)
    (snippet : Snippet) :
    (ofSnippet [version] force options snippet).entries =
      [⟨VersionRun.ofVersion options snippet version, false, []⟩] := by
  have hchosen (regression : Bool) : chosen [version] regression = [version] := by
    cases regression <;> rfl
  rw [entries_ofSnippet, hchosen]
  rfl

theorem label_ofVersion (options : BlockOptions) (snippet : Snippet) (version : Version) :
    (VersionRun.ofVersion options snippet version).label = version.label ∧
      (VersionRun.ofVersion options snippet version).version = version.compiler.version := by
  unfold VersionRun.ofVersion
  split <;> exact ⟨rfl, rfl⟩

theorem exists_version_of_getElem? {versions : List Version} {force : Bool}
    {options : BlockOptions} {snippet : Snippet} {i : Nat} {entry : ReportEntry}
    (h : (ofSnippet versions force options snippet).entries[i]? = some entry) :
    ∃ version, versions[i]? = some version ∧
      entry.run = VersionRun.ofVersion options snippet version := by
  have hrun := VersionRun.run_getElem?_entries ((chosen versions
    (force || snippet.asksForRegression)).map (VersionRun.ofVersion options snippet)) i
  rw [← entries_ofSnippet, h, Option.map_some, List.getElem?_map] at hrun
  obtain ⟨version, hversion, hmade⟩ := Option.map_eq_some_iff.1 hrun.symm
  exact ⟨version, getElem?_of_getElem?_chosen hversion, hmade.symm⟩

theorem comparedWith_of_getElem?_ofSnippet {versions : List Version} {force : Bool}
    {options : BlockOptions} {snippet : Snippet} {i : Nat} {entry : ReportEntry}
    (h : (ofSnippet versions force options snippet).entries[i]? = some entry) :
    entry.ComparedWith
      (blockBefore? (ofSnippet versions force options snippet).entries i) := by
  rw [entries_ofSnippet] at h ⊢
  exact comparedWith_of_getElem? _ h

/-- A report is the row of the runs that each version makes alone, each compared with the run right
before it. -/
theorem entries_ofSnippet_independent (versions : List Version) (force : Bool)
    (options : BlockOptions) (snippet : Snippet) :
    let report := ofSnippet versions force options snippet
    report.regression = (force || snippet.asksForRegression) ∧
      report.entries.length =
        (if report.regression then versions.length else min 1 versions.length) ∧
      ∀ i : Fin report.entries.length, ∃ version : Version,
        let entry := report.entries.get i
        versions[i.val]? = some version ∧
          (ofSnippet [version] force options snippet).entries = [⟨entry.run, false, []⟩] ∧
          entry.run.label = version.label ∧ entry.run.version = version.compiler.version ∧
          (entry.sameAsPrevious = true ↔
            blockBefore? report.entries i = some entry.run.block) ∧
          entry.changes = (blockBefore? report.entries i).elim [] fun old ↦
            if old = entry.run.block then [] else LineChange.ofBlocks old entry.run.block := by
  intro report
  refine ⟨rfl, ?_, fun i ↦ ?_⟩
  · have hentries := congrArg List.length (entries_ofSnippet versions force options snippet)
    rw [VersionRun.length_entries, List.length_map, length_chosen] at hentries
    exact hentries
  · have hentry : report.entries[i.val]? = some (report.entries.get i) :=
      List.getElem?_eq_getElem i.isLt
    obtain ⟨version, hversion, hrun⟩ := exists_version_of_getElem? hentry
    have hcompared := comparedWith_of_getElem?_ofSnippet hentry
    have hlabel := label_ofVersion options snippet version
    rw [← hrun] at hlabel
    refine ⟨version, hversion, ?_, hlabel.1, hlabel.2, hcompared.same, hcompared.changes⟩
    rw [entries_ofSnippet_singleton, hrun]

end Report

end VersionSweep
