import VersionSweep.Language.Span
import VersionSweep.Text.Offset

/-!
# Boundaries between characters

An offset is a boundary of a text when the characters before it take exactly so many bytes.  These
are the valid positions of the text as a string, `boundary_iff_isValid`.  A span that lies within a
text has boundaries at both ends, so the characters between them can be cut out.
-/

namespace VersionSweep

namespace Text

/-- Whether an offset stands between two characters of a text, or at one of its ends. -/
def Boundary (cs : List Char) (offset : Nat) : Prop :=
  ∃ before after, cs = before ++ after ∧ byteLength before = offset

theorem boundary_zero (cs : List Char) : Boundary cs 0 :=
  ⟨[], cs, rfl, rfl⟩

theorem boundary_append (before after : List Char) :
    Boundary (before ++ after) (byteLength before) :=
  ⟨before, after, rfl, rfl⟩

theorem Boundary.le_byteLength {cs : List Char} {offset : Nat} (h : Boundary cs offset) :
    offset ≤ byteLength cs := by
  obtain ⟨before, after, rfl, rfl⟩ := h
  rw [byteLength_append]
  exact Nat.le_add_right _ _

theorem utf8ByteSize_eq_byteLength (text : String) :
    text.utf8ByteSize = byteLength text.toList := by
  rw [← utf8ByteSize_ofList, String.ofList_toList]

/-- The boundaries of a text are its valid positions as a string. -/
theorem boundary_iff_isValid (text : String) (offset : Nat) :
    Boundary text.toList offset ↔ String.Pos.Raw.IsValid text ⟨offset⟩ := by
  rw [String.Pos.Raw.isValid_iff_exists_append]
  constructor
  · rintro ⟨before, after, htext, rfl⟩
    refine ⟨String.ofList before, String.ofList after, ?_, ?_⟩
    · rw [← String.ofList_append, ← htext, String.ofList_toList]
    · rw [String.rawEndPos, utf8ByteSize_ofList]
  · rintro ⟨before, after, rfl, hoffset⟩
    refine ⟨before.toList, after.toList, String.toList_append, ?_⟩
    rw [← utf8ByteSize_eq_byteLength]
    exact (congrArg String.Pos.Raw.byteIdx hoffset).symm

theorem placed_append (start : Nat) (cs ds : List Char) :
    placed start (cs ++ ds) = placed start cs ++ placed (start + byteLength cs) ds := by
  induction cs generalizing start with
  | nil => rfl
  | cons c cs ih =>
    rw [List.cons_append, placed, placed, ih, byteLength_cons, Nat.add_assoc, List.cons_append]

theorem mem_placed {start : Nat} {cs : List Char} {p : Nat × Char} (h : p ∈ placed start cs) :
    start ≤ p.1 ∧ p.1 < start + byteLength cs := by
  induction cs generalizing start with
  | nil => cases h
  | cons c cs ih =>
    have hpos : 0 < c.utf8Size := c.utf8Size_pos
    rw [byteLength_cons]
    rcases List.mem_cons.1 h with rfl | h
    · exact ⟨Nat.le_refl _, by omega⟩
    · have hp := ih h
      omega

theorem map_placed (start : Nat) (cs : List Char) : (placed start cs).map (·.2) = cs := by
  induction cs generalizing start with
  | nil => rfl
  | cons c cs ih => rw [placed, List.map_cons, ih]

/-- The characters between two boundaries are the ones that stand there. -/
theorem between_append (before piece after : List Char) :
    between (before ++ piece ++ after) (byteLength before) (byteLength (before ++ piece)) =
      piece := by
  have hbefore : (placed 0 before).filter
      (fun p ↦ byteLength before ≤ p.1 && p.1 < byteLength (before ++ piece)) = [] := by
    rw [List.filter_eq_nil_iff]
    intro p hp
    have hplace := mem_placed hp
    simp
    omega
  have hpiece : (placed (byteLength before) piece).filter
      (fun p ↦ byteLength before ≤ p.1 && p.1 < byteLength (before ++ piece)) =
      placed (byteLength before) piece := by
    rw [List.filter_eq_self]
    intro p hp
    have hplace := mem_placed hp
    simp
    omega
  have hafter : (placed (byteLength (before ++ piece)) after).filter
      (fun p ↦ byteLength before ≤ p.1 && p.1 < byteLength (before ++ piece)) = [] := by
    rw [List.filter_eq_nil_iff]
    intro p hp
    have hplace := mem_placed hp
    simp only [byteLength_append] at hplace ⊢
    simp
    omega
  rw [between, placed_append, placed_append, List.filter_append, List.filter_append, Nat.zero_add,
    Nat.zero_add, hbefore, hpiece, hafter, List.nil_append, List.append_nil, map_placed]

end Text

namespace Span

structure Within (cs : List Char) (span : Span) : Prop where
  le : span.start ≤ span.stop
  start : Text.Boundary cs span.start
  stop : Text.Boundary cs span.stop

theorem Within.start_add_length {cs : List Char} {span : Span} (h : span.Within cs) :
    span.start + span.length = span.stop :=
  Nat.add_sub_cancel' h.le

/-- A text is cut in three by a span that lies within it. -/
theorem Within.exists_append {cs : List Char} {span : Span} (h : span.Within cs) :
    ∃ before piece after, cs = before ++ piece ++ after ∧ Text.byteLength before = span.start ∧
      Text.byteLength (before ++ piece) = span.stop := by
  obtain ⟨before, rest, hbefore, hstart⟩ := h.start
  obtain ⟨upTo, after, hupTo, hstop⟩ := h.stop
  obtain ⟨piece, rfl⟩ := Text.prefix_of_byteLength_le ⟨rest, hbefore.symm⟩ ⟨after, hupTo.symm⟩
    (hstart ▸ hstop ▸ h.le)
  exact ⟨before, piece, after, hupTo, hstart, hstop⟩

/-- Spans one behind the other in the stretch from `low` up to `high`. -/
def Row (high : Nat) : Nat → List Span → Prop
  | low, [] => low ≤ high
  | low, span :: rest => low ≤ span.start ∧ span.start ≤ span.stop ∧ Row high span.stop rest

theorem Row.le {low high : Nat} {spans : List Span} (h : Row high low spans) : low ≤ high := by
  induction spans generalizing low with
  | nil => exact h
  | cons span rest ih => exact Nat.le_trans (Nat.le_trans h.1 h.2.1) (ih h.2.2)

theorem Row.mono {low low' high high' : Nat} {spans : List Span} (h : Row high low spans)
    (hlow : low' ≤ low) (hhigh : high ≤ high') : Row high' low' spans := by
  induction spans generalizing low low' with
  | nil => exact Nat.le_trans hlow (Nat.le_trans h hhigh)
  | cons span rest ih => exact ⟨Nat.le_trans hlow h.1, h.2.1, ih h.2.2 (Nat.le_refl _)⟩

theorem Row.append {low middle high : Nat} {spans more : List Span} (h : Row middle low spans)
    (hmore : Row high middle more) : Row high low (spans ++ more) := by
  induction spans generalizing low with
  | nil => exact hmore.mono h (Nat.le_refl _)
  | cons span rest ih => exact ⟨h.1, h.2.1, ih h.2.2⟩

end Span

end VersionSweep
