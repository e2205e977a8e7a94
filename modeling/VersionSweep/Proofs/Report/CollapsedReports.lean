import Mathlib.Data.Finset.Card
import Mathlib.Data.List.Destutter
import VersionSweep.Proofs.Report.Adjacency
import VersionSweep.Proofs.Report.BlockTexts
import VersionSweep.Proofs.Report.SectionTexts

/-!
# What a collapsed report still tells

An entry is marked from its neighbour alone, and everything that is asked about a report goes by the
marks.  Going along the runs they say as much as the blocks do: the blocks that are shown are the
row of all blocks with neighbours that are the same put together, and the block behind a mark is the
last one that was shown.  The rendered text tells the blocks to who knows the labels, unless a block
holds the header of the section behind it.
-/

namespace VersionSweep

section Neighbours

variable {α : Type*} [DecidableEq α]

theorem length_destutter'_ne (a : α) (l : List α) :
    (l.destutter' (· ≠ ·) a).length =
      1 + ((a :: l).zip l).countP fun pair ↦ pair.1 ≠ pair.2 := by
  induction l generalizing a with
  | nil => rfl
  | cons b l ih =>
    rw [List.zip_cons_cons, List.countP_cons]
    by_cases h : a = b
    · subst h
      rw [List.destutter'_cons_neg _ (by simp), ih]
      simp
    · rw [List.destutter'_cons_pos _ h, List.length_cons, ih]
      simp only [ne_eq, h, not_false_eq_true, decide_true, if_true]
      omega

theorem mem_destutter'_ne {a b : α} {l : List α} (h : b ∈ a :: l) :
    b ∈ l.destutter' (· ≠ ·) a := by
  induction l generalizing a with
  | nil => exact h
  | cons c l ih =>
    by_cases hac : a = c
    · subst hac
      rw [List.destutter'_cons_neg _ (by simp)]
      exact ih (by simpa using h)
    · rw [List.destutter'_cons_pos _ hac]
      rcases List.mem_cons.1 h with rfl | h
      · exact List.mem_cons_self
      · exact List.mem_cons_of_mem _ (ih h)

theorem length_destutter_ne (l : List α) :
    (l.destutter (· ≠ ·)).length =
      if l = [] then 0 else 1 + (l.zip l.tail).countP fun pair ↦ pair.1 ≠ pair.2 := by
  cases l with
  | nil => rfl
  | cons a l => exact length_destutter'_ne a l

theorem card_toFinset_le_length_destutter_ne (l : List α) :
    l.toFinset.card ≤ (l.destutter (· ≠ ·)).length := by
  cases l with
  | nil => exact le_rfl
  | cons a l =>
    refine le_trans (Finset.card_le_card fun b hb ↦ ?_) (List.toFinset_card_le _)
    exact List.mem_toFinset.2 (mem_destutter'_ne (List.mem_toFinset.1 hb))

end Neighbours

namespace Medium

def unmarked : Medium → String → String
  | console, body => body
  | markdown, body => String.ofList ((body.toList.drop 5).rdrop 5)

theorem unmarked_literal (medium : Medium) (text : String) :
    medium.unmarked (medium.literal text) = text := by
  cases medium with
  | console => rfl
  | markdown =>
    have hbody : (markdown.literal text).toList =
        ['`', '`', '`', '\r', '\n'] ++ (text.toList ++ ['\r', '\n', '`', '`', '`']) := by
      simp [literal]
    rw [unmarked, hbody]
    change String.ofList ((text.toList ++ ['\r', '\n', '`', '`', '`']).rdrop 5) = text
    rw [show 5 = ['\r', '\n', '`', '`', '`'].length from rfl, List.rdrop_append_length,
      String.ofList_toList]

theorem literal_ne_sameNote {text : String} (h : text ≠ Report.sameNote) (medium : Medium) :
    medium.literal text ≠ Report.sameNote := by
  cases medium with
  | console => exact h
  | markdown =>
    intro heq
    have hhead := congrArg (fun s : String ↦ s.toList.head?) heq
    simp [literal, Report.sameNote] at hhead

end Medium

theorem Outcome.isFailure_iff (outcome : Outcome) :
    outcome.isFailure = true ↔ ∃ error, outcome = .failed error := by
  cases outcome with
  | compiled diagnostics outputs => simp [isFailure]
  | failed error => simp [isFailure]

instance (outcome : Outcome) : Decidable (∃ error, outcome = .failed error) :=
  decidable_of_iff _ outcome.isFailure_iff

namespace VersionRun

variable (previous : VersionRun) (runs : List VersionRun)

theorem sameAsPrevious_compare (previous run : VersionRun) :
    (compare previous run).sameAsPrevious = decide (previous.block = run.block) := by
  unfold compare
  split
  · rename_i h
    exact (decide_eq_true h).symm
  · rename_i h
    exact (decide_eq_false h).symm

/-- The blocks that are shown are all blocks without repetitions right behind each other. -/
theorem cons_shown_compareAll :
    previous.block :: ((compareAll previous runs).filter fun entry ↦ !entry.sameAsPrevious).map
        (fun entry ↦ entry.run.block) =
      (runs.map block).destutter' (· ≠ ·) previous.block := by
  induction runs generalizing previous with
  | nil => rfl
  | cons run rest ih =>
    rw [compareAll, List.map_cons]
    by_cases h : previous.block = run.block
    · rw [List.destutter'_cons_neg _ (not_not_intro h), List.filter_cons_of_neg, h]
      · exact ih run
      · simp [sameAsPrevious_compare, h]
    · rw [List.destutter'_cons_pos _ h, List.filter_cons_of_pos, List.map_cons, run_compare, ih]
      simp [sameAsPrevious_compare, h]

theorem shown_entries :
    ((entries runs).filter fun entry ↦ !entry.sameAsPrevious).map
        (fun entry ↦ entry.run.block) =
      (runs.map block).destutter (· ≠ ·) := by
  cases runs with
  | nil => rfl
  | cons first rest => exact cons_shown_compareAll first rest

/-- Up to the first entry that is not marked all blocks are the block before the runs, by induction
on the runs: as long as a run is marked, it takes the place of that block. -/
theorem find?_compareAll_eq_none :
    (compareAll previous runs).find? (fun entry ↦ !entry.sameAsPrevious) = none ↔
      ∀ run ∈ runs, run.block = previous.block := by
  induction runs generalizing previous with
  | nil => simp [compareAll]
  | cons run rest ih =>
    rw [compareAll, List.forall_mem_cons]
    by_cases h : previous.block = run.block
    · rw [List.find?_cons_of_neg (by simp [sameAsPrevious_compare, h]), ih, h]
      simp
    · rw [List.find?_cons_of_pos (by simp [sameAsPrevious_compare, h])]
      simp [Ne.symm h]

/-- The first entry that is not marked is the first one whose block is not the block before the
runs. -/
theorem find?_compareAll_eq_some (entry : ReportEntry) :
    (compareAll previous runs).find? (fun entry ↦ !entry.sameAsPrevious) = some entry ↔
      ∃ i : Nat, (compareAll previous runs)[i]? = some entry ∧
        (runs.map block)[i]? ≠ some previous.block ∧
        ∀ k < i, (runs.map block)[k]? = some previous.block := by
  induction runs generalizing previous with
  | nil => simp [compareAll]
  | cons run rest ih =>
    rw [compareAll]
    by_cases h : previous.block = run.block
    · rw [List.find?_cons_of_neg (by simp [sameAsPrevious_compare, h]), ih, h]
      constructor
      · rintro ⟨i, hentry, hne, hbefore⟩
        exact ⟨i + 1, hentry, hne, Nat.forall_lt_succ_left.2 ⟨rfl, hbefore⟩⟩
      · rintro ⟨i, hentry, hne, hbefore⟩
        cases i with
        | zero => exact absurd rfl hne
        | succ i => exact ⟨i, hentry, hne, (Nat.forall_lt_succ_left.1 hbefore).2⟩
    · rw [List.find?_cons_of_pos (by simp [sameAsPrevious_compare, h]), Option.some.injEq]
      have hne : (List.map block (run :: rest))[0]? ≠ some previous.block :=
        fun heq ↦ h (Option.some.inj heq).symm
      constructor
      · rintro rfl
        exact ⟨0, rfl, hne, fun k hk ↦ absurd hk (Nat.not_lt_zero k)⟩
      · rintro ⟨i, hentry, -, hbefore⟩
        cases i with
        | zero => exact Option.some.inj hentry
        | succ i => exact absurd (hbefore 0 (Nat.succ_pos i)) hne

end VersionRun

namespace Report

/-- Read blocks off the texts below the headers, given the block before them. -/
def readBlocks (medium : Medium) (previous : String) : List String → List String
  | [] => []
  | body :: rest =>
    let block := if body = sameNote then previous else medium.unmarked body
    block :: readBlocks medium block rest

theorem readBlocks_literal {medium : Medium} {block : String} (h : block ≠ sameNote)
    (previous : String) (rest : List String) :
    readBlocks medium previous (medium.literal block :: rest) =
      block :: readBlocks medium block rest := by
  rw [readBlocks, if_neg (medium.literal_ne_sameNote h), medium.unmarked_literal]

theorem readBlocks_compareAll (medium : Medium) (previous : VersionRun) {runs : List VersionRun}
    (h : ∀ run ∈ runs, run.block ≠ sameNote) :
    readBlocks medium previous.block ((VersionRun.compareAll previous runs).map (body medium)) =
      runs.map VersionRun.block := by
  induction runs generalizing previous with
  | nil => rfl
  | cons run rest ih =>
    rw [List.forall_mem_cons] at h
    rw [VersionRun.compareAll, List.map_cons, List.map_cons, body,
      VersionRun.sameAsPrevious_compare, VersionRun.run_compare]
    by_cases hsame : previous.block = run.block
    · rw [if_pos (decide_eq_true hsame), readBlocks, if_pos rfl, hsame, ih run h.2]
    · rw [if_neg (by simp [hsame]), readBlocks_literal h.1, ih run h.2]

theorem readBlocks_entries (medium : Medium) (previous : String) {runs : List VersionRun}
    (h : ∀ run ∈ runs, run.block ≠ sameNote) :
    readBlocks medium previous ((VersionRun.entries runs).map (body medium)) =
      runs.map VersionRun.block := by
  cases runs with
  | nil => rfl
  | cons first rest =>
    rw [List.forall_mem_cons] at h
    exact (readBlocks_literal h.1 previous _).trans
      (congrArg _ (readBlocks_compareAll medium first h.2))

/-- Whether the entry at one place is the last one up to another place that is not marked. -/
structure LastShown (entries : List ReportEntry) (shown place : Nat) : Prop where
  le : shown ≤ place
  unmarked : entries[shown]?.map ReportEntry.sameAsPrevious = some false
  marked : ∀ k, shown < k → k ≤ place → entries[k]?.map ReportEntry.sameAsPrevious = some true

theorem sameAsPrevious_entries {runs : List VersionRun} {i : Nat} {earlier later : ReportEntry}
    (hearlier : (VersionRun.entries runs)[i]? = some earlier)
    (hlater : (VersionRun.entries runs)[i + 1]? = some later) :
    later.sameAsPrevious = true ↔ earlier.run.block = later.run.block := by
  refine (comparedWith_of_getElem? runs hlater).same.trans ?_
  rw [blockBefore?, hearlier, Option.map_some, Option.some.injEq]

theorem LastShown.self {entries : List ReportEntry} {place : Nat} {entry : ReportEntry}
    (hentry : entries[place]? = some entry) (h : entry.sameAsPrevious = false) :
    LastShown entries place place :=
  ⟨le_rfl, by rw [hentry, Option.map_some, h], fun _ hk hk' ↦ absurd hk (not_lt.2 hk')⟩

theorem LastShown.next {entries : List ReportEntry} {shown place : Nat} {entry : ReportEntry}
    (hshown : LastShown entries shown place) (hentry : entries[place + 1]? = some entry)
    (h : entry.sameAsPrevious = true) : LastShown entries shown (place + 1) := by
  refine ⟨Nat.le_succ_of_le hshown.le, hshown.unmarked, fun k hk hk' ↦ ?_⟩
  rcases Nat.le_succ_iff.1 hk' with hk' | rfl
  · exact hshown.marked k hk hk'
  · rw [hentry, Option.map_some, h]

/-- The last entry that is shown up to an entry has its block, by induction on the place: an entry
that is marked has the block of its neighbour. -/
theorem exists_lastShown (runs : List VersionRun) {place : Nat} {entry : ReportEntry}
    (h : (VersionRun.entries runs)[place]? = some entry) :
    ∃ j shown, (VersionRun.entries runs)[j]? = some shown ∧
      LastShown (VersionRun.entries runs) j place ∧ shown.run.block = entry.run.block := by
  induction place generalizing entry with
  | zero =>
    have hfirst : entry.sameAsPrevious = false := by
      have hsame := (comparedWith_of_getElem? runs h).same
      simpa [blockBefore?] using hsame
    exact ⟨0, entry, h, .self h hfirst, rfl⟩
  | succ place ih =>
    obtain ⟨earlier, hearlier⟩ : ∃ earlier, (VersionRun.entries runs)[place]? = some earlier :=
      ⟨_, List.getElem?_eq_getElem (Nat.lt_of_succ_lt (List.getElem?_eq_some_iff.1 h).1)⟩
    have hsame := sameAsPrevious_entries hearlier h
    cases hmark : entry.sameAsPrevious with
    | false => exact ⟨place + 1, entry, h, .self h hmark, rfl⟩
    | true =>
      obtain ⟨j, shown, hj, hshown, hblock⟩ := ih hearlier
      exact ⟨j, shown, hj, hshown.next h hmark, hblock.trans (hsame.1 hmark)⟩

theorem firstDivergence_entries_eq_none (runs : List VersionRun) (regression : Bool) :
    firstDivergence ⟨VersionRun.entries runs, regression⟩ = none ↔
      ∀ block ∈ runs.map VersionRun.block, some block = (runs.map VersionRun.block)[0]? := by
  cases runs with
  | nil => simp [firstDivergence, VersionRun.entries]
  | cons first rest =>
    refine (VersionRun.find?_compareAll_eq_none first rest).trans ?_
    simp

theorem firstDivergence_entries_eq_some (runs : List VersionRun) (regression : Bool)
    (entry : ReportEntry) :
    firstDivergence ⟨VersionRun.entries runs, regression⟩ = some entry ↔
      ∃ i : Nat, (VersionRun.entries runs)[i]? = some entry ∧
        (runs.map VersionRun.block)[i]? ≠ (runs.map VersionRun.block)[0]? ∧
        ∀ k < i, (runs.map VersionRun.block)[k]? = (runs.map VersionRun.block)[0]? := by
  cases runs with
  | nil => simp [firstDivergence, VersionRun.entries]
  | cons first rest =>
    refine (VersionRun.find?_compareAll_eq_some first rest entry).trans ⟨?_, ?_⟩
    · rintro ⟨i, hentry, hne, hbefore⟩
      exact ⟨i + 1, hentry, hne, Nat.forall_lt_succ_left.2 ⟨rfl, hbefore⟩⟩
    · rintro ⟨i, hentry, hne, hbefore⟩
      cases i with
      | zero => exact absurd rfl hne
      | succ i => exact ⟨i, hentry, hne, (Nat.forall_lt_succ_left.1 hbefore).2⟩

theorem distinct_eq_length_destutter (runs : List VersionRun) (regression : Bool) :
    (summary ⟨VersionRun.entries runs, regression⟩).distinct =
      ((runs.map VersionRun.block).destutter (· ≠ ·)).length := by
  rw [← VersionRun.shown_entries, List.length_map]
  rfl

theorem failed_eq_countP (report : Report) :
    report.summary.failed =
      report.entries.countP fun entry ↦ ∃ error, entry.run.outcome = .failed error := by
  refine List.countP_eq_length_filter.symm.trans (List.countP_congr fun entry _ ↦ ?_)
  rw [entry.run.outcome.isFailure_iff, decide_eq_true_iff]

def blocks (report : Report) : List String :=
  report.entries.map fun entry ↦ entry.run.block

/-- Read the blocks of the versions with the given labels off the text of a report. -/
def readOff (medium : Medium) (labels : List String) (text : String) : List String :=
  readBlocks medium "" ((sections medium labels text.toList).map String.ofList)

theorem readOff_render {runs : List VersionRun} (hnote : ∀ run ∈ runs, run.block ≠ sameNote)
    (regression : Bool) {medium : Medium} (h : Parted medium (VersionRun.entries runs)) :
    readOff medium (runs.map VersionRun.label)
        (render ⟨VersionRun.entries runs, regression⟩ medium) =
      runs.map VersionRun.block := by
  have hlabels : runs.map VersionRun.label =
      (VersionRun.entries runs).map fun entry ↦ entry.run.label := by
    conv_lhs => rw [← VersionRun.map_run_entries runs, List.map_map]
    rfl
  rw [readOff, toList_render, hlabels, sections_joined h, List.map_map]
  simp only [Function.comp_def, String.ofList_toList]
  exact readBlocks_entries medium "" hnote

/-- A report of a snippet loses nothing by leaving out blocks.  Every block is the one last shown,
and it can be read off what is rendered unless a section holds the header of the next one.  The
first divergence is the first block that differs from the first block of all, and the count of
distinct blocks is the number of changes from one block to the next, plus one. -/
theorem marks_tell_blocks (versions : List Version) (force : Bool) (options : BlockOptions)
    (snippet : Snippet) :
    let report := ofSnippet versions force options snippet
    let blocks := report.blocks
    (∀ i < report.entries.length, ∃ j : Nat,
        LastShown report.entries j i ∧ blocks[j]? = blocks[i]?) ∧
      (∀ medium : Medium, Parted medium report.entries →
        readOff medium (report.entries.map fun entry ↦ entry.run.label) (report.render medium) =
          blocks) ∧
      (report.firstDivergence = none ↔ ∀ block ∈ blocks, some block = blocks[0]?) ∧
      (∀ entry, report.firstDivergence = some entry ↔
        ∃ i : Nat, report.entries[i]? = some entry ∧ blocks[i]? ≠ blocks[0]? ∧
          ∀ k < i, blocks[k]? = blocks[0]?) ∧
      report.summary.distinct =
        (if blocks = [] then 0
        else 1 + (blocks.zip blocks.tail).countP fun pair ↦ pair.1 ≠ pair.2) ∧
      blocks.toFinset.card ≤ report.summary.distinct ∧
      report.summary.failed =
        report.entries.countP fun entry ↦ ∃ error, entry.run.outcome = .failed error := by
  intro report blocks
  obtain ⟨runs, hruns, hnote⟩ : ∃ runs, report.entries = VersionRun.entries runs ∧
      ∀ run ∈ runs, run.block ≠ sameNote := by
    refine ⟨_, entries_ofSnippet versions force options snippet, fun run hrun ↦ ?_⟩
    obtain ⟨version, -, rfl⟩ := List.mem_map.1 hrun
    exact VersionRun.block_ofVersion_ne_sameNote options snippet version
  have hreport : report = ⟨VersionRun.entries runs, report.regression⟩ := by
    rw [← hruns]
  have hblocks : blocks = runs.map VersionRun.block := by
    change report.entries.map (VersionRun.block ∘ ReportEntry.run) = _
    rw [hruns, ← List.map_map, VersionRun.map_run_entries]
  have hlabels : (report.entries.map fun entry ↦ entry.run.label) = runs.map VersionRun.label := by
    change report.entries.map (VersionRun.label ∘ ReportEntry.run) = _
    rw [hruns, ← List.map_map, VersionRun.map_run_entries]
  rw [hlabels]
  generalize report.regression = regression at hreport
  clear_value report blocks
  subst hreport hblocks
  refine ⟨fun i hi ↦ ?_, fun medium ↦ readOff_render hnote regression,
    firstDivergence_entries_eq_none runs _, firstDivergence_entries_eq_some runs _, ?_, ?_, ?_⟩
  · have hentry := List.getElem?_eq_getElem hi
    obtain ⟨j, shown, hj, hshown, hblock⟩ := exists_lastShown runs hentry
    refine ⟨j, hshown, ?_⟩
    rw [← VersionRun.map_run_entries runs, List.map_map, List.getElem?_map, List.getElem?_map, hj,
      hentry]
    exact congrArg some hblock
  · rw [distinct_eq_length_destutter, length_destutter_ne]
  · rw [distinct_eq_length_destutter]
    exact card_toFinset_le_length_destutter_ne _
  · exact failed_eq_countP _

theorem marks_tell_blocks_two_versions :
    let library := Library.ofFiles "lib" [("lib.d.ts", "")]
    let v : Version := ⟨"2.0.0", ⟨"2.0.0"⟩, library⟩
    let w : Version := ⟨"1.0.0", ⟨"1.0.0"⟩, library⟩
    let report := ofSnippet [v, w] true ⟨none, false⟩
      (Snippet.parse "let x: number = \"= 1.0.0 =\";" "a.ts")
    Parted .console report.entries ∧ report.blocks.Nodup ∧
      readOff .console (report.entries.map fun entry ↦ entry.run.label) (report.render .console) =
        report.blocks := by
  intro library v w report
  have hparted : Parted .console report.entries := by decide +kernel
  exact ⟨hparted, by decide +kernel, (marks_tell_blocks [v, w] true ⟨none, false⟩ _).2.1 _ hparted⟩

/-- Reports on the same two versions with different blocks may read alike if a block holds a header,
here as a part of the path at which the library is missing. -/
theorem exists_render_eq_of_blocks_ne :
    let old (folder : String) : Version := ⟨"1.0.0", ⟨"1.0.0"⟩, .ofFiles folder []⟩
    let new (folder : String) : Version := ⟨"2.0.0", ⟨"2.0.0"⟩, .ofFiles folder []⟩
    let joint := "/lib.d.ts: No such file or directory (os error 2)\n" ++
      Medium.console.sectionHeader "2.0.0" ++ "\nFailed to read library file "
    let snippet := Snippet.parse "// @regress\nlet n = 1;" "a.ts"
    let first := ofSnippet [old "p", new ("q" ++ joint ++ "r")] false ⟨none, true⟩ snippet
    let second := ofSnippet [old ("p" ++ joint ++ "q"), new "r"] false ⟨none, true⟩ snippet
    (first.entries.map fun entry ↦ entry.run.label) =
        (second.entries.map fun entry ↦ entry.run.label) ∧
      first.render .console = second.render .console ∧ first.blocks ≠ second.blocks := by
  decide +kernel

end Report

end VersionSweep
