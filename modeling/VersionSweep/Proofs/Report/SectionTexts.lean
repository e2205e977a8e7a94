import Mathlib.Data.List.Chain
import VersionSweep.Report.Regression

/-!
# Sections of a rendered report

A rendered report is one text, and nothing in it sets the headers off from what stands between them.
Who knows the labels can still find the sections one by one, as long as each header is first found
where its section begins.
-/

namespace VersionSweep

namespace Text

/-- The place at which a pattern first stands in a text, or the end of the text. -/
def firstPlace (pattern : List Char) : List Char → Nat
  | [] => 0
  | c :: cs => if pattern.isPrefixOf (c :: cs) then 0 else firstPlace pattern cs + 1

theorem firstPlace_append {pattern text : List Char} (hne : pattern ≠ [])
    (h : ¬pattern <:+: text ++ pattern.dropLast) (rest : List Char) :
    firstPlace pattern (text ++ pattern ++ rest) = text.length := by
  induction text with
  | nil =>
    obtain ⟨c, tail, rfl⟩ := List.exists_cons_of_ne_nil hne
    have hfound : (c :: tail).isPrefixOf (c :: (tail ++ rest)) = true :=
      List.isPrefixOf_iff_prefix.2 ⟨rest, rfl⟩
    rw [List.nil_append, List.cons_append, firstPlace, if_pos hfound, List.length_nil]
  | cons c text ih =>
    have htail : ¬pattern <:+: text ++ pattern.dropLast :=
      fun hinfix ↦ h (List.infix_cons hinfix)
    have hfound : ¬pattern.isPrefixOf (c :: (text ++ pattern ++ rest)) = true := by
      rw [List.isPrefixOf_iff_prefix]
      intro hprefix
      -- A pattern that begins earlier ends before the last character of the one behind the text.
      have hshort : c :: (text ++ pattern.dropLast) <+: c :: (text ++ pattern ++ rest) := by
        rw [List.append_assoc, List.prefix_cons_inj, List.prefix_append_right_inj]
        exact (List.dropLast_prefix pattern).trans (List.prefix_append pattern rest)
      have hlength : pattern.length ≤ (c :: (text ++ pattern.dropLast)).length := by
        rw [List.length_cons, List.length_append, List.length_dropLast]
        omega
      exact h (List.prefix_of_prefix_length_le hprefix hshort hlength).isInfix
    rw [List.cons_append, List.cons_append, firstPlace, if_neg hfound, ih htail, List.length_cons]

theorem drop_length_succ (line rest : List Char) :
    (line ++ '\n' :: rest).drop (line.length + 1) = rest := by
  rw [List.append_cons, List.drop_left' (by rw [List.length_append, List.length_singleton])]

end Text

namespace Medium

/-- The line above a section: its label in bold, or between two bars that take up what the label
leaves of 58 columns, each of them of an even length. -/
def headerLine : Medium → List Char → List Char
  | console, label =>
    let bar := List.replicate ((58 - label.length) / 2 * 2) '='
    bar ++ ' ' :: label ++ ' ' :: bar
  | markdown, label => ['*', '*'] ++ label ++ ['*', '*']

theorem toList_sectionHeader (medium : Medium) (label : String) :
    (medium.sectionHeader label).toList = medium.headerLine label.toList := by
  cases medium with
  | console =>
    simp [sectionHeader, bar, headerLine, headerWidth, Nat.mul_comm, String.length_toList]
  | markdown => simp [sectionHeader, headerLine]

/-- What stands between a section and the lines of the next one. -/
def border (medium : Medium) (label : List Char) : List Char :=
  '\n' :: medium.headerLine label ++ ['\n']

end Medium

namespace Report

def sections (medium : Medium) : List String → List Char → List (List Char)
  | [], _ => []
  | [label], text => [text.drop ((medium.headerLine label.toList).length + 1)]
  | label :: next :: labels, text =>
    let below := text.drop ((medium.headerLine label.toList).length + 1)
    let length := Text.firstPlace (medium.border next.toList) below
    below.take length :: sections medium (next :: labels) (below.drop (length + 1))

/-- Whether the header of each section is first found behind the section before it: that one does
not hold it on lines of its own, not even together with its own beginning. -/
def Parted (medium : Medium) (entries : List ReportEntry) : Prop :=
  entries.IsChain fun earlier later ↦ ¬medium.border later.run.label.toList <:+:
    (body medium earlier).toList ++ '\n' :: medium.headerLine later.run.label.toList

instance (medium : Medium) (entries : List ReportEntry) : Decidable (Parted medium entries) :=
  inferInstanceAs (Decidable (List.IsChain _ entries))

def joined (medium : Medium) (entries : List ReportEntry) : List Char :=
  ['\n'].intercalate (entries.map fun entry ↦ (renderEntry medium entry).toList)

theorem toList_render (report : Report) (medium : Medium) :
    (report.render medium).toList = joined medium report.entries := by
  rw [render, Text.stack, String.toList_intercalate, List.map_map]
  rfl

section Joined

variable {medium : Medium} {entry next : ReportEntry} {rest : List ReportEntry}

theorem toList_renderEntry :
    (renderEntry medium entry).toList =
      medium.headerLine entry.run.label.toList ++ '\n' :: (body medium entry).toList := by
  rw [renderEntry, String.toList_append, String.toList_append, Medium.toList_sectionHeader,
    List.append_assoc]
  rfl

theorem joined_cons_cons :
    joined medium (entry :: next :: rest) =
      medium.headerLine entry.run.label.toList ++
        '\n' :: ((body medium entry).toList ++ '\n' :: joined medium (next :: rest)) := by
  rw [joined, List.map_cons, List.map_cons, List.intercalate_cons_cons, toList_renderEntry]
  simp [joined]

theorem exists_joined_cons (medium : Medium) (entry : ReportEntry) (rest : List ReportEntry) :
    ∃ more, joined medium (entry :: rest) =
      medium.headerLine entry.run.label.toList ++ '\n' :: more := by
  cases rest with
  | nil =>
    rw [joined, List.map_singleton, List.intercalate_singleton, toList_renderEntry]
    exact ⟨_, rfl⟩
  | cons next rest =>
    rw [joined_cons_cons]
    exact ⟨_, rfl⟩

theorem firstPlace_border (h : ¬medium.border next.run.label.toList <:+:
    (body medium entry).toList ++ '\n' :: medium.headerLine next.run.label.toList) :
    Text.firstPlace (medium.border next.run.label.toList)
        ((body medium entry).toList ++ '\n' :: joined medium (next :: rest)) =
      (body medium entry).toList.length := by
  obtain ⟨more, hmore⟩ := exists_joined_cons medium next rest
  have hlast : (medium.border next.run.label.toList).dropLast =
      '\n' :: medium.headerLine next.run.label.toList := by
    rw [Medium.border, List.dropLast_concat]
  have htext : (body medium entry).toList ++ '\n' :: joined medium (next :: rest) =
      (body medium entry).toList ++ medium.border next.run.label.toList ++ more := by
    rw [hmore, Medium.border]
    simp
  rw [htext]
  exact Text.firstPlace_append (List.cons_ne_nil _ _) (hlast ▸ h) more

end Joined

/-- The sections are found one by one, by induction on the entries. -/
theorem sections_joined {medium : Medium} {entries : List ReportEntry}
    (h : Parted medium entries) :
    sections medium (entries.map fun entry ↦ entry.run.label) (joined medium entries) =
      entries.map fun entry ↦ (body medium entry).toList := by
  induction entries with
  | nil => rfl
  | cons entry rest ih =>
    cases rest with
    | nil =>
      rw [joined, List.map_singleton, List.map_singleton, List.map_singleton,
        List.intercalate_singleton, sections, toList_renderEntry, Text.drop_length_succ]
    | cons next rest =>
      obtain ⟨hborder, hrest⟩ := List.isChain_cons_cons.1 h
      rw [List.map_cons, List.map_cons, sections, joined_cons_cons, Text.drop_length_succ,
        firstPlace_border hborder, List.take_left' rfl, Text.drop_length_succ]
      exact congrArg _ (ih hrest)

end Report

end VersionSweep
