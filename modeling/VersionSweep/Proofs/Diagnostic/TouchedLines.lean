import VersionSweep.Diagnostic.Excerpt
import VersionSweep.Proofs.Text.Bytes

/-!
# Lines that a stretch touches

An excerpt is put together while one piece of the text is read.  Said without the reading, its rows
are those of the lines of the text from the one in which the stretch begins to the one in which it
ends, each line with its characters at their offsets.
-/

namespace VersionSweep

open Text (placed byteLength)

namespace Excerpt

def shown (c : Char) : List Char :=
  if c = '\r' then [] else if c = '\t' then List.replicate tabWidth ' ' else [c]

def mark (inside : Bool) (c : Char) : List Char :=
  if inside then (shown c).map fun _ ↦ '~'
  else if Text.isBlank c then shown c
  else [' ']

def sourceRow (line : List (Nat × Char)) : List Char :=
  line.flatMap fun p ↦ shown p.2

def underlineRow (start stop : Nat) (line : List (Nat × Char)) : List Char :=
  line.flatMap fun p ↦ mark (start ≤ p.1 && p.1 < stop) p.2

def placedLines (cs : List Char) : List (List (Nat × Char)) :=
  (placed 0 cs).splitOnP Text.breaksLine

/-- The rows of lines; only the last line comes with its place in front, and the blanks before the
marks under it are as wide as that place. -/
def lineRows (place : List Char) (start stop : Nat) : List (List (Nat × Char)) → List String
  | [] => []
  | [line] =>
    [String.ofList (place ++ sourceRow line),
      String.ofList
        (Text.trimEnd (List.replicate place.length ' ' ++ underlineRow start stop line))]
  | line :: rest =>
    String.ofList (sourceRow line) ::
      String.ofList (Text.trimEnd (underlineRow start stop line)) ::
      lineRows place start stop rest

section Reading

variable {start stop : Nat} {line : List (Nat × Char)}

theorem expandTabs_append (row more : List Char) :
    expandTabs (row ++ more) = expandTabs row ++ expandTabs more :=
  List.flatMap_append

theorem expandTabs_singleton {c : Char} (h : c ≠ '\r') : expandTabs [c] = shown c := by
  rw [shown, if_neg h, expandTabs, List.flatMap_singleton]

theorem expandTabs_underlining (inside : Bool) {c : Char} (h : c ≠ '\r') :
    expandTabs (underlining inside c) = mark inside c := by
  unfold underlining mark
  split
  · rw [shown, if_neg h]
    split
    · rfl
    · rfl
  · split
    · exact expandTabs_singleton h
    · rfl

structure Draft.Holds (start stop : Nat) (draft : Draft) (line : List (Nat × Char)) : Prop where
  source : expandTabs draft.source = sourceRow line
  underline : expandTabs draft.underline = underlineRow start stop line

theorem Draft.Holds.read {draft : Draft} (h : draft.Holds start stop line) {p : Nat × Char}
    (hp : p.2 ≠ '\n') : (draft.read start stop p).Holds start stop (line ++ [p]) := by
  have hsource : sourceRow (line ++ [p]) = sourceRow line ++ shown p.2 := by
    rw [sourceRow, List.flatMap_append, List.flatMap_singleton, ← sourceRow]
  have hunderline : underlineRow start stop (line ++ [p]) =
      underlineRow start stop line ++ mark (start ≤ p.1 && p.1 < stop) p.2 := by
    rw [underlineRow, List.flatMap_append, List.flatMap_singleton, ← underlineRow]
  rw [Draft.read, if_neg hp]
  split
  · rename_i hreturn
    -- A carriage return is shown by nothing, and it is blank.
    refine ⟨?_, ?_⟩
    · rw [hsource, hreturn, h.source]
      exact (List.append_nil _).symm
    · rw [hunderline, hreturn, h.underline]
      cases hinside : decide (start ≤ p.1) && decide (p.1 < stop) <;>
        exact (List.append_nil _).symm
  · rename_i hreturn
    refine ⟨?_, ?_⟩
    · rw [hsource, ← h.source, ← expandTabs_singleton hreturn, ← expandTabs_append]
    · rw [hunderline, ← h.underline, ← expandTabs_underlining _ hreturn, ← expandTabs_append]

theorem lineRows_cons (place : List Char) {lines : List (List (Nat × Char))} (h : lines ≠ []) :
    lineRows place start stop (line :: lines) =
      String.ofList (sourceRow line) ::
        String.ofList (Text.trimEnd (underlineRow start stop line)) ::
        lineRows place start stop lines := by
  obtain ⟨next, rest, rfl⟩ := List.exists_cons_of_ne_nil h
  rfl

/-- Reading a piece adds the rows of its lines, the first of which goes on with the line at hand. -/
theorem Draft.close_foldl_read (place : List Char) {draft : Draft}
    (h : draft.Holds start stop line) (piece : List (Nat × Char)) :
    (piece.foldl (Draft.read start stop) draft).close place =
      draft.rows ++ lineRows place start stop
        ((piece.splitOnP Text.breaksLine).modifyHead (line ++ ·)) := by
  induction piece generalizing draft line with
  | nil =>
    rw [List.foldl_nil, close, h.source, h.underline, List.splitOnP_nil, List.modifyHead_cons,
      List.append_nil, lineRows]
  | cons p piece ih =>
    rw [List.foldl_cons, List.splitOnP_cons_eq_if_modifyHead]
    by_cases hp : p.2 = '\n'
    · have hbreak : Text.breaksLine p = true := beq_iff_eq.2 hp
      have hnext : (draft.read start stop p).Holds start stop [] := by
        rw [Draft.read, if_pos hp]
        exact ⟨rfl, rfl⟩
      have hrows : (draft.read start stop p).rows = draft.rows ++
          [String.ofList (sourceRow line),
            String.ofList (Text.trimEnd (underlineRow start stop line))] := by
        rw [Draft.read, if_pos hp, h.source, h.underline]
      rw [ih hnext, hrows, if_pos hbreak, List.modifyHead_cons, List.append_nil,
        lineRows_cons place (List.splitOnP_ne_nil _ _), List.append_assoc]
      obtain ⟨head, tail, hsplit⟩ := List.exists_cons_of_ne_nil
        (List.splitOnP_ne_nil Text.breaksLine piece)
      rw [hsplit]
      rfl
    · have hpass : ¬Text.breaksLine p = true := fun hbreak ↦ hp (beq_iff_eq.1 hbreak)
      have hrows : (draft.read start stop p).rows = draft.rows := by
        rw [Draft.read, if_neg hp]
        split
        · rfl
        · rfl
      obtain ⟨head, tail, hsplit⟩ := List.exists_cons_of_ne_nil
        (List.splitOnP_ne_nil Text.breaksLine piece)
      rw [ih (h.read hp), hrows, if_neg hpass, hsplit]
      simp only [List.modifyHead_cons, List.append_assoc, List.singleton_append]

end Reading

section Piece

variable {before after : List Char}

theorem exists_placedLines_append_left (h : before = [] ∨ before.getLast? = some '\n')
    (rest : List Char) :
    ∃ first, placedLines (before ++ rest) =
        first ++ (placed (byteLength before) rest).splitOnP Text.breaksLine ∧
      first.length = before.count '\n' := by
  obtain rfl | hlast := h
  · exact ⟨[], rfl, rfl⟩
  obtain ⟨init, rfl⟩ := List.getLast?_eq_some_iff.1 hlast
  refine ⟨placedLines init, ?_, ?_⟩
  · have hbreak : Text.breaksLine (byteLength init, '\n') = true := rfl
    rw [placedLines, List.append_assoc, Text.placed_append, List.singleton_append, placed,
      Nat.zero_add, List.splitOnP_append_cons _ _ hbreak, Text.byteLength_append]
    rfl
  · rw [placedLines, Text.length_splitOnP_placed, List.count_append, List.count_singleton_self]

theorem exists_placedLines_append_right (h : after = [] ∨ after.head? = some '\n') (offset : Nat)
    (rest : List Char) :
    ∃ last, (placed offset (rest ++ after)).splitOnP Text.breaksLine =
      (placed offset rest).splitOnP Text.breaksLine ++ last := by
  obtain rfl | hfirst := h
  · exact ⟨[], by rw [List.append_nil, List.append_nil]⟩
  obtain ⟨tail, rfl⟩ := List.head?_eq_some_iff.1 hfirst
  have hbreak : Text.breaksLine (offset + byteLength rest, '\n') = true := rfl
  rw [Text.placed_append, placed, List.splitOnP_append_cons _ _ hbreak]
  exact ⟨_, rfl⟩

/-- The lines of a piece between line breaks are lines of the text, one behind the other. -/
theorem splitOnP_placed_piece (piece : List Char)
    (hopens : before = [] ∨ before.getLast? = some '\n')
    (hcloses : after = [] ∨ after.head? = some '\n') :
    (placed (byteLength before) piece).splitOnP Text.breaksLine =
      ((placedLines (before ++ piece ++ after)).drop (before.count '\n')).take
        (piece.count '\n' + 1) := by
  obtain ⟨first, hfirst, hlength⟩ := exists_placedLines_append_left hopens (piece ++ after)
  obtain ⟨last, hlast⟩ := exists_placedLines_append_right hcloses (byteLength before) piece
  rw [List.append_assoc, hfirst, List.drop_left' hlength, hlast,
    List.take_left' (Text.length_splitOnP_placed _ piece)]

/-- The rows for a stretch are there, and they are those of the lines that it touches. -/
theorem stretchRows?_eq_some (file : String) {cs : List Char} {start stop : Nat}
    (hle : start ≤ stop) (hstop : stop ≤ byteLength cs) :
    let first := Text.lineIndex cs start
    let last := Text.lineIndex cs stop
    stretchRows? file cs start stop = some (lineRows s!"{file}:{last + 1} ".toList start stop
      (((placedLines cs).drop first).take (last + 1 - first))) := by
  intro first last
  obtain ⟨before, piece, after, hbefore, hupTo, hrows⟩ := exists_stretchRows?_eq file hle hstop
  have hfirst : before.count '\n' = first := by
    rw [hbefore.count, ← Text.lineIndex_eq_count_bytes]
  have hlast : (before ++ piece).count '\n' = last := by
    rw [hupTo.count, ← Text.lineIndex_eq_count_bytes]
  have hlines := splitOnP_placed_piece piece hbefore.opens hupTo.closes
  have hcount : piece.count '\n' + 1 = last + 1 - first := by
    rw [List.count_append] at hlast
    omega
  rw [← hupTo.eq_append, hfirst, hcount] at hlines
  obtain ⟨head, tail, hsplit⟩ := List.exists_cons_of_ne_nil
    (List.splitOnP_ne_nil Text.breaksLine (placed (byteLength before) piece))
  have hholds : Draft.Holds start stop ⟨[], [], [], byteLength before⟩ [] := ⟨rfl, rfl⟩
  rw [hrows, hlast, Draft.close_foldl_read _ hholds, ← hlines, hsplit]
  rfl

end Piece

/-- The rows of an excerpt as those of the lines that it shows. -/
theorem rows?_eq_some (location : Location) (cs : List Char) :
    let start := min location.start (byteLength cs)
    let stop := min (location.start + location.length) (byteLength cs)
    let first := Text.lineIndex cs start
    let last := Text.lineIndex cs stop
    rows? location cs = some (lineRows s!"{location.file}:{last + 1} ".toList start stop
      (((placedLines cs).drop first).take (last + 1 - first))) :=
  stretchRows?_eq_some location.file (by omega) (by omega)

end Excerpt

theorem Diagnostic.render?_located (diagnostic : Diagnostic) (location : Location)
    (text : String) :
    let cs := text.toList
    let start := min location.start (byteLength cs)
    let stop := min (location.start + location.length) (byteLength cs)
    let first := Text.lineIndex cs start
    let last := Text.lineIndex cs stop
    render? { diagnostic with location := some location } (some text) =
      some (Text.stack (Excerpt.lineRows s!"{location.file}:{last + 1} ".toList start stop
          (((Excerpt.placedLines cs).drop first).take (last + 1 - first)) ++
        [s!"{diagnostic.severity.word} {diagnostic.code}: {diagnostic.message.flatten}"])) := by
  simp only [render?, Excerpt.rows?_eq_some, Option.bind_eq_bind, Option.bind_some, Option.pure_def]

end VersionSweep
