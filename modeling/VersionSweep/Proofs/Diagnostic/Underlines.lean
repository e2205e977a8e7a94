import VersionSweep.Proofs.Diagnostic.TouchedLines
import VersionSweep.Proofs.Text.Trimming

/-!
# Marks under source lines

A row of a source line and the row under it are put together character by character, each character
taking the same columns in both.  So the columns with marks are those of the characters in the
stretch that is shown, whatever tabs, carriage returns and wide characters the line has, and cutting
off the blanks at the end of the lower row takes no mark away.
-/

namespace VersionSweep

open Text (placed byteLength LineAt)

namespace Excerpt

/-- The columns that a character takes: four for a tab, none for a carriage return, else one. -/
def width (c : Char) : Nat :=
  if c = '\r' then 0 else if c = '\t' then 4 else 1

def columns : List Char → Nat
  | [] => 0
  | c :: cs => width c + columns cs

/-- Whether a column is one of a character from `start` up to `stop`, where the line begins at
`offset` and at the column `left`. -/
def Covered (line : List Char) (offset start stop left column : Nat) : Prop :=
  ∃ before c after, line = before ++ c :: after ∧
    start ≤ offset + byteLength before ∧ offset + byteLength before < stop ∧
    left + columns before ≤ column ∧ column < left + columns before + width c

/-- Whether two rows show a line behind a place and mark under it the characters from `start` up to
`stop`, where the line begins at `offset`. -/
structure Aligned (place line : List Char) (offset start stop : Nat)
    (source underline : List Char) : Prop where
  source_eq : source = place ++ line.flatMap shown
  /-- Each character of the line is shown at its columns. -/
  shown_at : ∀ before c after, line = before ++ c :: after →
    (source.drop (place.length + columns before)).take (width c) = shown c
  marks : ∀ column, underline[column]? = some '~' ↔
    Covered line offset start stop place.length column
  blanks : ∀ c ∈ underline, c = '~' ∨ Text.isBlank c = true

theorem columns_cons (c : Char) (cs : List Char) :
    columns (c :: cs) = width c + columns cs := rfl

theorem length_shown (c : Char) : (shown c).length = width c := by
  unfold shown width
  split
  · rfl
  · split
    · rfl
    · rfl

theorem length_flatMap_shown (cs : List Char) : (cs.flatMap shown).length = columns cs := by
  induction cs with
  | nil => rfl
  | cons c cs ih => rw [List.flatMap_cons, List.length_append, length_shown, ih, columns_cons]

theorem sourceRow_placed (offset : Nat) (line : List Char) :
    sourceRow (placed offset line) = line.flatMap shown := by
  rw [← Text.map_placed offset line, List.flatMap_map, Text.map_placed]
  rfl

theorem isBlank_of_mem_shown {c d : Char} (hc : Text.isBlank c = true) (h : d ∈ shown c) :
    Text.isBlank d = true := by
  unfold shown at h
  split at h
  · cases h
  · split at h
    · rw [List.eq_of_mem_replicate h]
      decide
    · rwa [List.mem_singleton.1 h]

theorem covered_cons {c : Char} {cs : List Char} {offset start stop left column : Nat} :
    Covered (c :: cs) offset start stop left column ↔
      (start ≤ offset ∧ offset < stop ∧ left ≤ column ∧ column < left + width c) ∨
        Covered cs (offset + c.utf8Size) start stop (left + width c) column := by
  constructor
  · rintro ⟨before, d, after, hline, hstart, hstop, hleft, hright⟩
    cases before with
    | nil =>
      obtain ⟨rfl, rfl⟩ := List.cons.inj hline
      exact .inl ⟨hstart, hstop, hleft, hright⟩
    | cons first before =>
      obtain ⟨rfl, rfl⟩ := List.cons.inj hline
      rw [Text.byteLength_cons] at hstart hstop
      rw [columns_cons] at hleft hright
      exact .inr ⟨before, d, after, rfl, by omega, by omega, by omega, by omega⟩
  · rintro (⟨hstart, hstop, hleft, hright⟩ | ⟨before, d, after, rfl, hstart, hstop, hleft, hright⟩)
    · exact ⟨[], c, cs, rfl, hstart, hstop, hleft, hright⟩
    · refine ⟨c :: before, d, after, rfl, ?_⟩
      rw [Text.byteLength_cons, columns_cons]
      omega

theorem length_mark (inside : Bool) (c : Char) : (mark inside c).length = width c := by
  unfold mark
  split
  · rw [List.length_map, length_shown]
  · split
    · exact length_shown c
    · rename_i hc
      have hreturn : c ≠ '\r' := by
        rintro rfl
        exact hc (by decide)
      have htab : c ≠ '\t' := by
        rintro rfl
        exact hc (by decide)
      rw [width, if_neg hreturn, if_neg htab, List.length_singleton]

theorem isBlank_of_mem_mark {inside : Bool} {c d : Char} (h : d ∈ mark inside c) :
    (inside = true ∧ d = '~') ∨ Text.isBlank d = true := by
  unfold mark at h
  split at h
  · rename_i hinside
    obtain ⟨_, -, rfl⟩ := List.mem_map.1 h
    exact .inl ⟨hinside, rfl⟩
  · split at h
    · rename_i hc
      exact .inr (isBlank_of_mem_shown hc h)
    · rw [List.mem_singleton.1 h]
      exact .inr (by decide)

theorem getElem?_append_mark (lead : List Char) (inside : Bool) (c : Char) (column : Nat) :
    (lead ++ mark inside c)[column]? = some '~' ↔ lead[column]? = some '~' ∨
      (inside = true ∧ lead.length ≤ column ∧ column < lead.length + width c) := by
  rw [List.getElem?_append]
  split
  · rename_i hlead
    exact ⟨.inl, fun h ↦ h.resolve_right fun hc ↦ Nat.not_le.2 hlead hc.2.1⟩
  · rename_i hlead
    have hnone : lead[column]? = none := List.getElem?_eq_none (Nat.le_of_not_lt hlead)
    rw [hnone]
    constructor
    · intro h
      have hlt := (List.getElem?_eq_some_iff.1 h).1
      rw [length_mark] at hlt
      obtain ⟨hinside, -⟩ | hblank := isBlank_of_mem_mark (List.mem_of_getElem? h)
      · exact .inr ⟨hinside, by omega, by omega⟩
      · exact absurd hblank (by decide)
    · rintro (h | ⟨rfl, hle, hlt⟩)
      · cases h
      · rw [mark, if_pos rfl, List.getElem?_map, List.getElem?_eq_getElem, Option.map_some]
        rw [length_shown]
        omega

/-- The marks behind a text are those of the characters in the stretch. -/
theorem getElem?_append_underlineRow (lead line : List Char) (offset start stop column : Nat) :
    (lead ++ underlineRow start stop (placed offset line))[column]? = some '~' ↔
      lead[column]? = some '~' ∨ Covered line offset start stop lead.length column := by
  -- The mark of each character joins the text before the rest.
  induction line generalizing lead offset with
  | nil =>
    have hnone : ¬Covered [] offset start stop lead.length column := by
      rintro ⟨before, c, after, hline, -⟩
      simp at hline
    rw [placed, underlineRow, List.flatMap_nil, List.append_nil]
    exact ⟨.inl, fun h ↦ h.resolve_right hnone⟩
  | cons c line ih =>
    have hrow : lead ++ underlineRow start stop (placed offset (c :: line)) =
        (lead ++ mark (start ≤ offset && offset < stop) c) ++
          underlineRow start stop (placed (offset + c.utf8Size) line) := by
      rw [placed, underlineRow, List.flatMap_cons, List.append_assoc]
      rfl
    rw [hrow, ih, getElem?_append_mark, List.length_append, length_mark, covered_cons,
      Bool.and_eq_true, decide_eq_true_eq, decide_eq_true_eq, or_assoc, and_assoc]

def pair (start stop : Nat) (place : List Char) (line : List (Nat × Char)) :
    List Char × List Char :=
  (place ++ sourceRow line,
    Text.trimEnd (List.replicate place.length ' ' ++ underlineRow start stop line))

theorem isBlank_of_mem_pair {place : List Char} {start stop : Nat} {line : List (Nat × Char)}
    {c : Char} (h : c ∈ (pair start stop place line).2) : c = '~' ∨ Text.isBlank c = true := by
  obtain hc | hc := List.mem_append.1 ((Text.isPrefix_trimEnd _).subset h)
  · rw [List.eq_of_mem_replicate hc]
    exact .inr (by decide)
  · obtain ⟨p, -, hc⟩ := List.mem_flatMap.1 hc
    exact (isBlank_of_mem_mark hc).imp_left And.right

theorem aligned_pair (place line : List Char) (offset start stop : Nat) :
    let rows := pair start stop place (placed offset line)
    Aligned place line offset start stop rows.1 rows.2 where
  source_eq := by rw [pair, sourceRow_placed]
  shown_at before c after hline := by
    have hsource : place ++ sourceRow (placed offset line) =
        (place ++ before.flatMap shown) ++ (shown c ++ after.flatMap shown) := by
      rw [sourceRow_placed, hline, List.flatMap_append, List.flatMap_cons, List.append_assoc]
    rw [pair, hsource, List.drop_left' (by rw [List.length_append, length_flatMap_shown]),
      List.take_left' (length_shown c)]
  marks column := by
    have hlead : (List.replicate place.length ' ')[column]? ≠ some '~' := by
      intro h
      exact absurd (List.eq_of_mem_replicate (List.mem_of_getElem? h)) (by decide)
    rw [pair, Text.getElem?_trimEnd_eq_some_iff (by decide), getElem?_append_underlineRow,
      List.length_replicate]
    exact ⟨fun h ↦ h.resolve_left hlead, .inr⟩
  blanks c hc := isBlank_of_mem_pair hc

/-- The rows of an excerpt in pairs, only the last of which has the place in front. -/
def pairs (place : List Char) (start stop : Nat) (lines : List (List (Nat × Char))) :
    List (List Char × List Char) :=
  lines.mapIdx fun i line ↦ pair start stop (if i + 1 = lines.length then place else []) line

variable {place : List Char} {start stop : Nat} {lines : List (List (Nat × Char))}

theorem pairs_cons (line : List (Nat × Char)) (h : lines ≠ []) :
    pairs place start stop (line :: lines) =
      pair start stop [] line :: pairs place start stop lines := by
  have hfirst : 0 + 1 ≠ (line :: lines).length := by
    have hpos := List.length_pos_iff.2 h
    rw [List.length_cons]
    omega
  rw [pairs, List.mapIdx_cons, if_neg hfirst, pairs]
  simp only [List.length_cons, Nat.add_right_cancel_iff]

theorem lineRows_eq_flatMap :
    lineRows place start stop lines =
      (pairs place start stop lines).flatMap fun rows ↦
        [String.ofList rows.1, String.ofList rows.2] := by
  fun_induction lineRows place start stop lines with
  | case1 => rfl
  | case2 line => rfl
  | case3 line rest hrest ih =>
    rw [pairs_cons line (fun h ↦ hrest (h ▸ rfl)), List.flatMap_cons, ih]
    rfl

/-- The lines that a stretch touches are as many as the line feeds in it and one. -/
theorem length_touched {cs : List Char} {first last : Nat} (hle : first ≤ last)
    (hlast : last ≤ cs.count '\n') :
    (((placedLines cs).drop first).take (last + 1 - first)).length = last + 1 - first := by
  rw [List.length_take, List.length_drop, placedLines, Text.length_splitOnP_placed]
  omega

end Excerpt

namespace Diagnostic

open Excerpt

/-- An excerpt shows the lines that the stretch touches, each with a row of marks under it.  A mark
stands at each column of the characters in the stretch and nowhere else, and the rest of the row is
blank. -/
theorem render_aligned (diagnostic : Diagnostic) (location : Location) (text : String) :
    let cs := text.toList
    let start := min location.start (byteLength cs)
    let stop := min (location.start + location.length) (byteLength cs)
    let first := Text.lineIndex cs start
    let last := Text.lineIndex cs stop
    let place := s!"{location.file}:{last + 1} ".toList
    ∃ rows : List (List Char × List Char),
      Diagnostic.render { diagnostic with location := some location } (some text) =
        Text.stack (rows.flatMap (fun row ↦ [String.ofList row.1, String.ofList row.2]) ++
          [s!"{diagnostic.severity.word} {diagnostic.code}: {diagnostic.message.flatten}"]) ∧
      rows.length = last - first + 1 ∧
      ∀ i row, rows[i]? = some row → ∃ before line after,
        LineAt cs (first + i) before line after ∧
        Aligned (if first + i = last then place else []) line (byteLength before) start stop
          row.1 row.2 := by
  intro cs start stop first last place
  have hle : first ≤ last := Text.lineIndex_mono cs (by omega)
  have hlast : last ≤ cs.count '\n' := Text.lineIndex_le_count cs stop
  let lines := ((placedLines cs).drop first).take (last + 1 - first)
  have hlength : lines.length = last + 1 - first := length_touched hle hlast
  refine ⟨pairs place start stop lines, ?_, ?_, fun i row hrow ↦ ?_⟩
  · rw [← lineRows_eq_flatMap, ← Option.some_inj, ← render?_eq_some]
    exact render?_located diagnostic location text
  · rw [pairs, List.length_mapIdx, hlength]
    omega
  · rw [pairs, List.getElem?_mapIdx, Option.map_eq_some_iff] at hrow
    obtain ⟨piece, hpiece, rfl⟩ := hrow
    have hi : i < last + 1 - first := hlength ▸ (List.getElem?_eq_some_iff.1 hpiece).1
    have hnumber : first + i ≤ cs.count '\n' := by omega
    obtain ⟨before, line, after, hline, hplaced⟩ := Text.exists_lineAt 0 hnumber
    refine ⟨before, line, after, hline, ?_⟩
    rw [List.getElem?_take_of_lt hi, List.getElem?_drop] at hpiece
    rw [Nat.zero_add] at hplaced
    obtain rfl := Option.some.inj (hpiece.symm.trans hplaced)
    have hplace : (i + 1 = lines.length) ↔ (first + i = last) := by omega
    simp only [hplace]
    exact aligned_pair _ line _ start stop

example : rows? ⟨"a.ts", 0, 6⟩ "\tx\r =\n 1;".toList =
    some ["    x =", "~~~~~~~", "a.ts:2  1;", ""] := by
  decide +kernel

end Diagnostic

end VersionSweep
