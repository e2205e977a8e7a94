import VersionSweep.Proofs.Diagnostic.Underlines
import VersionSweep.Proofs.Text.Lines

/-!
# Lines in an excerpt

An excerpt shows the lines from the one in which the stretch begins to the one in which it ends.
These are the lines of one piece of the text, which begins behind a line feed and stops before one,
or at the ends of the text, so it can be cut out wherever the stretch begins and stops.
-/

namespace VersionSweep

open Text (placed byteLength LineAt rawLines)

namespace Text

/-- The piece of a text that holds the stretch from `start` up to `stop` and has the lines from
`first` to `last`. -/
structure Stretch (cs : List Char) (start stop first last : Nat)
    (before piece after : List Char) : Prop where
  eq_append : cs = before ++ piece ++ after
  before_le : byteLength before ≤ start
  le_piece : stop ≤ byteLength (before ++ piece)
  lines : rawLines piece = ((rawLines cs).drop first).take (last + 1 - first)
  first_le : first ≤ last
  last_lt : last < (rawLines cs).length

theorem map_splitOnP_placed (offset : Nat) (cs : List Char) :
    ((placed offset cs).splitOnP breaksLine).map (·.map (·.2)) = rawLines cs := by
  induction cs generalizing offset with
  | nil => rfl
  | cons c cs ih =>
    rw [placed, List.splitOnP_cons_eq_if_modifyHead, rawLines, List.splitOn_cons_eq_if_modifyHead,
      ← rawLines, ← ih (offset + c.utf8Size)]
    by_cases hc : c = '\n'
    · simp [breaksLine, hc]
    · obtain ⟨head, tail, hsplit⟩ := List.exists_cons_of_ne_nil
        (List.splitOnP_ne_nil breaksLine (placed (offset + c.utf8Size) cs))
      simp [breaksLine, hc, hsplit]

end Text

namespace Excerpt

def displayed (line : List Char) : List Char :=
  (line.filter (· ≠ '\r')).flatMap fun c ↦ if c = '\t' then [' ', ' ', ' ', ' '] else [c]

theorem sourceRow_eq_displayed (line : List (Nat × Char)) :
    sourceRow line = displayed (line.map (·.2)) := by
  induction line with
  | nil => rfl
  | cons p line ih =>
    rw [sourceRow, List.flatMap_cons, ← sourceRow, ih, List.map_cons, displayed, displayed]
    by_cases hc : p.2 = '\r'
    · simp [shown, hc]
    · simp [shown, hc, tabWidth]

theorem map_placedLines (cs : List Char) : (placedLines cs).map (·.map (·.2)) = rawLines cs :=
  Text.map_splitOnP_placed 0 cs

/-- The piece that the searches find has the lines that the stretch touches. -/
theorem exists_stretch {cs : List Char} {start stop : Nat} (hle : start ≤ stop)
    (hstop : stop ≤ byteLength cs) :
    ∃ before piece after, Text.Stretch cs start stop (Text.lineIndex cs start)
      (Text.lineIndex cs stop) before piece after := by
  obtain ⟨before, piece, after, -, -, hbefore, hupTo⟩ := exists_piece hle hstop
  have hfirst : before.count '\n' = Text.lineIndex cs start := by
    rw [hbefore.count, ← Text.lineIndex_eq_count_bytes]
  have hlast : (before ++ piece).count '\n' = Text.lineIndex cs stop := by
    rw [hupTo.count, ← Text.lineIndex_eq_count_bytes]
  have hcount : piece.count '\n' + 1 =
      Text.lineIndex cs stop + 1 - Text.lineIndex cs start := by
    rw [List.count_append] at hlast
    omega
  have hlines := congrArg (List.map (List.map Prod.snd))
    (splitOnP_placed_piece piece hbefore.opens hupTo.closes)
  rw [← hupTo.eq_append, Text.map_splitOnP_placed, List.map_take, List.map_drop, map_placedLines,
    hfirst, hcount] at hlines
  refine ⟨before, piece, after, hupTo.eq_append, hbefore.le, hupTo.le, hlines,
    Text.lineIndex_mono cs hle, ?_⟩
  rw [Text.length_rawLines]
  exact Nat.lt_succ_of_le (Text.lineIndex_le_count cs stop)

/-- The source rows are the lines, the last one behind the place. -/
theorem map_fst_pairs {place : List Char} {start stop first last : Nat}
    {lines : List (List (Nat × Char))} (h : lines.length = last + 1 - first) :
    (pairs place start stop lines).map (·.1) = (lines.map (·.map (·.2))).mapIdx fun i line ↦
      (if first + i = last then place else []) ++ displayed line := by
  symm
  rw [List.mapIdx_eq_iff]
  intro i
  rw [pairs, List.getElem?_map, List.getElem?_map, List.getElem?_mapIdx, Option.map_map,
    Option.map_map]
  refine Option.map_congr fun line hline ↦ ?_
  have hi := (List.getElem?_eq_some_iff.1 hline).1
  have hplace : i + 1 = lines.length ↔ first + i = last := by omega
  simp only [Function.comp_apply, pair, sourceRow_eq_displayed, hplace]

end Excerpt

namespace Diagnostic

open Excerpt

theorem mem_severity_words (severity : Severity) :
    (severity, severity.word) ∈ [(Severity.error, "error"), (.warning, "warning"),
      (.suggestion, "suggestion"), (.message, "message")] := by
  cases severity <;> decide

/-- There is an excerpt for every located diagnostic.  It is made of the lines from the one with as
many line feeds before it as the stretch has, to the one with as many as the end of the stretch has.
They are the lines of a piece of the text, each comes with one row under it, and only the last one
has the place in front.  What the diagnostic says stands below them. -/
theorem render_shows_lines (diagnostic : Diagnostic) (location : Location) (text : String) :
    let bytes := text.toUTF8.data.toList
    let start := min location.start bytes.length
    let stop := min (location.start + location.length) bytes.length
    let first := (bytes.take start).count Text.feedByte
    let last := (bytes.take stop).count Text.feedByte
    let place := s!"{location.file}:{last + 1} ".toList
    ∃ before piece after, Text.Stretch text.toList start stop first last before piece after ∧
      ∃ category, (diagnostic.severity, category) ∈ [(Severity.error, "error"),
        (.warning, "warning"), (.suggestion, "suggestion"), (.message, "message")] ∧
      ∃ rows : List (List Char × List Char),
        Diagnostic.render? { diagnostic with location := some location } (some text) = some
          (Text.stack (rows.flatMap (fun row ↦ [String.ofList row.1, String.ofList row.2]) ++
            [s!"{category} {diagnostic.code}: {diagnostic.message.flatten}"])) ∧
        rows.map (·.1) = (rawLines piece).mapIdx (fun i line ↦
          (if first + i = last then place else []) ++ displayed line) ∧
        ∀ row ∈ rows, ∀ c ∈ row.2, c = '~' ∨ Text.isBlank c = true := by
  rw [Text.data_toUTF8]
  intro bytes start stop first last place
  have hsize : bytes.length = byteLength text.toList := Text.length_bytes text.toList
  have hstart : start = min location.start (byteLength text.toList) := by rw [← hsize]
  have hstop : stop = min (location.start + location.length) (byteLength text.toList) := by
    rw [← hsize]
  have hfirst : Text.lineIndex text.toList start = first := Text.lineIndex_eq_count_bytes _ _
  have hlast : Text.lineIndex text.toList stop = last := Text.lineIndex_eq_count_bytes _ _
  have hle : start ≤ stop := by omega
  have hinside : stop ≤ byteLength text.toList := by omega
  obtain ⟨before, piece, after, hpiece⟩ := exists_stretch hle hinside
  rw [hfirst, hlast] at hpiece
  let lines := ((placedLines text.toList).drop first).take (last + 1 - first)
  have hlines : lines.map (·.map (·.2)) = rawLines piece := by
    rw [hpiece.lines, ← map_placedLines, List.map_take, List.map_drop]
  have hlength : lines.length = last + 1 - first :=
    length_touched hpiece.first_le (hlast ▸ Text.lineIndex_le_count _ _)
  refine ⟨before, piece, after, hpiece, diagnostic.severity.word, mem_severity_words _,
    pairs place start stop lines, ?_, ?_, ?_⟩
  · have hrender := render?_located diagnostic location text
    dsimp only at hrender
    rw [← hstart, ← hstop, hfirst, hlast] at hrender
    rw [hrender, lineRows_eq_flatMap]
  · rw [← hlines]
    exact map_fst_pairs hlength
  · intro row hrow c hc
    obtain ⟨i, hi, rfl⟩ := List.mem_mapIdx.1 hrow
    exact isBlank_of_mem_pair hc

end Diagnostic

end VersionSweep
