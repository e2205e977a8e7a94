import VersionSweep.Diagnostic
import VersionSweep.Text.Blank
import VersionSweep.Text.Line
import VersionSweep.Text.LineSearch

/-!
# Source excerpts

A located diagnostic is shown with the lines that its stretch touches, from the line in which the
stretch begins to the one in which it ends.  Under each line stands a row that marks the characters
of the stretch.  Offsets past the end of the text count as its end.

The piece of the text that is shown is found by searches for line feeds, backward from the beginning
of the stretch and forward from its end.  Both stop between characters, so the piece can be cut out
wherever the stretch lies, `isSome_rows?`.
-/

namespace VersionSweep.Excerpt

open Text (byteLength byteLength_append byteLength_cons byteLength_nil)

def tabWidth : Nat := 4

def expandTabs (row : List Char) : List Char :=
  row.flatMap fun c ↦ if c = '\t' then List.replicate tabWidth ' ' else [c]

/-- An excerpt as far as it has been put together: the rows of the lines that are closed, and what
there is of the two rows of the line at hand. -/
structure Draft where
  rows : List String
  source : List Char
  underline : List Char
  lineStart : Nat

/-- What is put under a character, tabs not yet expanded. -/
def underlining (inside : Bool) (c : Char) : List Char :=
  if inside then (if c = '\t' then List.replicate tabWidth '~' else ['~'])
  else if Text.isBlank c then [c]
  else [' ']

namespace Draft

/-- Take in one character of the piece for a stretch from `start` up to `stop`. -/
def read (start stop : Nat) (draft : Draft) (placed : Nat × Char) : Draft :=
  let (place, c) := placed
  if c = '\n' then
    { rows := draft.rows ++ [String.ofList (expandTabs draft.source),
        String.ofList (Text.trimEnd (expandTabs draft.underline))]
      source := []
      underline := []
      lineStart := place + 1 }
  else if c = '\r' then draft
  else
    { draft with
      source := draft.source ++ [c]
      underline := draft.underline ++ underlining (start ≤ place && place < stop) c }

/-- All rows, those of the line at hand behind a place and as many blanks. -/
def close (draft : Draft) (place : List Char) : List String :=
  draft.rows ++ [String.ofList (place ++ expandTabs draft.source), String.ofList
    (Text.trimEnd (List.replicate place.length ' ' ++ expandTabs draft.underline))]

end Draft

/-- The rows for the stretch of a text from `start` up to `stop`.  Only the last line comes with its
place in front. -/
def stretchRows? (file : String) (cs : List Char) (start stop : Nat) : Option (List String) := do
  let opening ← Text.lineStart? cs start
  let piece ← Text.slice? cs opening (← Text.lineEnd? cs stop)
  let draft := (Text.placed opening piece).foldl (Draft.read start stop) ⟨[], [], [], opening⟩
  let before ← Text.bytesBefore? cs draft.lineStart
  return draft.close s!"{file}:{before.count Text.feedByte + 1} ".toList

def rows? (location : Location) (cs : List Char) : Option (List String) :=
  stretchRows? location.file cs (min location.start (byteLength cs))
    (min (location.start + location.length) (byteLength cs))

/-- The line at hand begins behind the last line feed that has been taken in. -/
theorem Draft.exists_lineStart_foldl_read (start stop : Nat) {front line : List Char}
    (hline : '\n' ∉ line) {draft : Draft} (hdraft : draft.lineStart = byteLength front)
    (piece : List Char) :
    ∃ front' line', front ++ line ++ piece = front' ++ line' ∧ '\n' ∉ line' ∧
      ((Text.placed (byteLength (front ++ line)) piece).foldl (read start stop) draft).lineStart =
        byteLength front' := by
  induction piece generalizing front line draft with
  | nil => exact ⟨front, line, List.append_nil _, hline, hdraft⟩
  | cons c piece ih =>
    have hnext : byteLength (front ++ line) + c.utf8Size = byteLength (front ++ line ++ [c]) := by
      rw [byteLength_append (front ++ line) [c], byteLength_cons, byteLength_nil, Nat.add_zero]
    rw [Text.placed, List.foldl_cons, hnext, List.append_cons]
    by_cases hc : c = '\n'
    · subst hc
      rw [← List.append_nil (front ++ line ++ ['\n'])]
      refine ih List.not_mem_nil ?_
      rw [read, if_pos rfl, ← hnext]
      rfl
    · have hfree : '\n' ∉ line ++ [c] := by simp [hline, Ne.symm hc]
      rw [List.append_assoc front line [c]]
      refine ih hfree ?_
      rw [← hdraft, read, if_neg hc]
      split
      · rfl
      · rfl

/-- The searches for a stretch find the piece of the text that is shown. -/
theorem exists_piece {cs : List Char} {start stop : Nat} (hle : start ≤ stop)
    (hstop : stop ≤ byteLength cs) :
    ∃ before piece after, Text.lineStart? cs start = some (byteLength before) ∧
      Text.lineEnd? cs stop = some (byteLength (before ++ piece)) ∧
      Text.BeforeLine cs start before ∧ Text.AroundEnd cs stop (before ++ piece) after := by
  obtain ⟨before, hopening, hbefore⟩ := Text.exists_lineStart? (Nat.le_trans hle hstop)
  obtain ⟨upTo, after, hclosing, hupTo⟩ := Text.exists_lineEnd? hstop
  have hcut : byteLength before ≤ byteLength upTo :=
    Nat.le_trans hbefore.le (Nat.le_trans hle hupTo.le)
  obtain ⟨piece, rfl⟩ := Text.prefix_of_byteLength_le hbefore.isPrefix
    ⟨after, hupTo.eq_append.symm⟩ hcut
  exact ⟨before, piece, after, hopening, hclosing, hbefore, hupTo⟩

/-- There are rows for every stretch: those that come out when the piece has been taken in. -/
theorem exists_stretchRows?_eq (file : String) {cs : List Char} {start stop : Nat}
    (hle : start ≤ stop) (hstop : stop ≤ byteLength cs) :
    ∃ before piece after,
      Text.BeforeLine cs start before ∧ Text.AroundEnd cs stop (before ++ piece) after ∧
      let draft := (Text.placed (byteLength before) piece).foldl (Draft.read start stop)
        ⟨[], [], [], byteLength before⟩
      let number := (before ++ piece).count '\n' + 1
      stretchRows? file cs start stop = some (draft.close s!"{file}:{number} ".toList) := by
  obtain ⟨before, piece, after, hopening, hclosing, hbefore, hupTo⟩ := exists_piece hle hstop
  refine ⟨before, piece, after, hbefore, hupTo, ?_⟩
  have hslice : Text.slice? cs (byteLength before) (byteLength (before ++ piece)) = some piece := by
    rw [hupTo.eq_append]
    exact Text.slice?_append before piece after
  have hdraft : (⟨[], [], [], byteLength before⟩ : Draft).lineStart = byteLength before := rfl
  obtain ⟨front, line, hsplit, hline, hlineStart⟩ :=
    Draft.exists_lineStart_foldl_read start stop List.not_mem_nil hdraft piece
  rw [List.append_nil] at hsplit hlineStart
  have hcount : (before ++ piece).count '\n' = (Text.bytes front).count Text.feedByte := by
    rw [hsplit, List.count_append, List.count_eq_zero.2 hline, Nat.add_zero, Text.count_bytes]
  have hbytes : Text.bytesBefore? cs (byteLength front) = some (Text.bytes front) := by
    rw [hupTo.eq_append, hsplit, List.append_assoc]
    exact Text.bytesBefore?_append front _
  dsimp only
  rw [hcount]
  simp only [stretchRows?, Option.bind_eq_bind, hopening, Option.bind_some, hclosing, hslice,
    hlineStart, hbytes]
  rfl

theorem isSome_rows? (location : Location) (cs : List Char) :
    (rows? location cs).isSome = true := by
  have hle : min location.start (byteLength cs) ≤
      min (location.start + location.length) (byteLength cs) := by omega
  obtain ⟨_, _, _, -, -, hrows⟩ :=
    exists_stretchRows?_eq location.file hle (Nat.min_le_right _ _)
  exact Option.isSome_of_eq_some hrows

end Excerpt

namespace Diagnostic

/-- A diagnostic as text: the excerpt and a line with severity, code and message if it is located in
a source that is at hand, and the bare message if not. -/
def render? (diagnostic : Diagnostic) (source : Option String) : Option String :=
  let message := diagnostic.message.flatten
  match diagnostic.location, source with
  | some location, some text => do
    let rows ← Excerpt.rows? location text.toList
    return Text.stack (rows ++ [s!"{diagnostic.severity.word} {diagnostic.code}: {message}"])
  | _, _ => some message

theorem isSome_render? (diagnostic : Diagnostic) (source : Option String) :
    (diagnostic.render? source).isSome = true := by
  unfold render?
  split
  · rename_i location text _
    obtain ⟨rows, hrows⟩ := Option.isSome_iff_exists.1 (Excerpt.isSome_rows? location text.toList)
    rw [hrows]
    rfl
  · rfl

def render (diagnostic : Diagnostic) (source : Option String) : String :=
  (diagnostic.render? source).get (isSome_render? diagnostic source)

theorem render?_eq_some (diagnostic : Diagnostic) (source : Option String) :
    diagnostic.render? source = some (diagnostic.render source) :=
  Option.eq_some_of_isSome (isSome_render? diagnostic source)

theorem render_of_rows? {diagnostic : Diagnostic} {location : Location} {text : String}
    {rows : List String} (hlocation : diagnostic.location = some location)
    (hrows : Excerpt.rows? location text.toList = some rows) :
    diagnostic.render (some text) = Text.stack (rows ++
      [s!"{diagnostic.severity.word} {diagnostic.code}: {diagnostic.message.flatten}"]) := by
  apply Option.some.inj
  rw [← render?_eq_some]
  simp only [render?, hlocation, hrows, Option.bind_eq_bind, Option.bind_some, Option.pure_def]

end Diagnostic

end VersionSweep
