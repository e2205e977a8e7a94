import Mathlib.Data.List.Forall2
import VersionSweep.Text.Line

/-!
# Diverging texts

Two texts diverge if they differ at a place before both of them end.  Whatever stands around them,
they stay different.  So rows that are pairwise the same or diverging can be told from the text that
they are stacked to, though a row may itself have line breaks in it.
-/

namespace VersionSweep.Text

/-- Whether two texts have different characters at the first place at which they differ. -/
def Diverge (s t : String) : Prop :=
  ∃ p c d x y, s.toList = p ++ c :: x ∧ t.toList = p ++ d :: y ∧ c ≠ d

theorem Diverge.ne {s t : String} (h : Diverge s t) : s ≠ t := by
  rintro rfl
  obtain ⟨p, c, d, x, y, hs, ht, hne⟩ := h
  rw [hs] at ht
  exact hne (List.cons.inj (List.append_cancel_left ht)).1

theorem Diverge.symm {s t : String} (h : Diverge s t) : Diverge t s := by
  obtain ⟨p, c, d, x, y, hs, ht, hne⟩ := h
  exact ⟨p, d, c, y, x, ht, hs, hne.symm⟩

theorem diverge_of_cons {s t : String} {c d : Char} {x y : List Char} (hs : s.toList = c :: x)
    (ht : t.toList = d :: y) (hne : c ≠ d) : Diverge s t :=
  ⟨[], c, d, x, y, hs, ht, hne⟩

theorem Diverge.prepend {s t : String} (h : Diverge s t) (before : String) :
    Diverge (before ++ s) (before ++ t) := by
  obtain ⟨p, c, d, x, y, hs, ht, hne⟩ := h
  refine ⟨before.toList ++ p, c, d, x, y, ?_, ?_, hne⟩
  · rw [String.toList_append, hs, List.append_assoc]
  · rw [String.toList_append, ht, List.append_assoc]

theorem Diverge.append {s t : String} (h : Diverge s t) (after after' : String) :
    Diverge (s ++ after) (t ++ after') := by
  obtain ⟨p, c, d, x, y, hs, ht, hne⟩ := h
  refine ⟨p, c, d, x ++ after.toList, y ++ after'.toList, ?_, ?_, hne⟩
  · rw [String.toList_append, hs, List.append_assoc, List.cons_append]
  · rw [String.toList_append, ht, List.append_assoc, List.cons_append]

def EqOrDiverge (s t : String) : Prop :=
  s = t ∨ Diverge s t

theorem EqOrDiverge.prepend {s t : String} (h : EqOrDiverge s t) (before : String) :
    EqOrDiverge (before ++ s) (before ++ t) :=
  h.imp (congrArg _) fun hdiverge ↦ hdiverge.prepend before

theorem EqOrDiverge.append {s t : String} (h : EqOrDiverge s t) (after : String) :
    EqOrDiverge (s ++ after) (t ++ after) :=
  h.imp (congrArg (· ++ after)) fun hdiverge ↦ hdiverge.append after after

theorem stack_cons {row : String} {rows : List String} (h : rows ≠ []) :
    stack (row :: rows) = row ++ ("\n" ++ stack rows) := by
  rw [stack, String.intercalate_cons_of_ne_nil h, String.append_assoc, stack]

/-- Rows that are pairwise the same or diverging, above the same rows, are the same or are stacked
to diverging texts. -/
theorem eq_or_diverge_stack {rows rows' : List String} (h : List.Forall₂ EqOrDiverge rows rows')
    (below : List String) :
    rows = rows' ∨ Diverge (stack (rows ++ below)) (stack (rows' ++ below)) := by
  induction h with
  | nil => exact .inl rfl
  | @cons row row' rest rest' hrow hrest ih =>
    -- Only the last of all rows has no line break behind it.
    by_cases hbelow : rest ++ below = []
    · obtain ⟨rfl, rfl⟩ := List.append_eq_nil_iff.1 hbelow
      cases hrest
      exact hrow.imp (congrArg (fun row ↦ [row])) fun hdiverge ↦ by simpa [stack] using hdiverge
    · have hbelow' : rest' ++ below ≠ [] := by
        intro hnil
        obtain ⟨rfl, rfl⟩ := List.append_eq_nil_iff.1 hnil
        cases hrest
        exact hbelow rfl
      rw [List.cons_append, List.cons_append, stack_cons hbelow, stack_cons hbelow']
      obtain rfl | hdiverge := hrow
      · exact ih.imp (congrArg _) fun hdiverge ↦ (hdiverge.prepend "\n").prepend row
      · exact .inr (hdiverge.append _ _)

/-- Rows that are pairwise the same or diverging can be told from the text that they are stacked to.
-/
theorem stack_append_inj {rows rows' : List String} (h : List.Forall₂ EqOrDiverge rows rows')
    (below : List String) :
    stack (rows ++ below) = stack (rows' ++ below) ↔ rows = rows' := by
  refine ⟨fun hstack ↦ ?_, fun hrows ↦ by rw [hrows]⟩
  exact (eq_or_diverge_stack h below).resolve_right fun hdiverge ↦ hdiverge.ne hstack

theorem exists_stack_append_singleton (rows : List String) :
    ∃ before, ∀ row, stack (rows ++ [row]) = before ++ row := by
  cases rows with
  | nil => exact ⟨"", fun row ↦ by simp [stack]⟩
  | cons first rest =>
    refine ⟨stack (first :: rest) ++ "\n", fun row ↦ ?_⟩
    rw [stack, String.intercalate_append_of_ne_nil (by simp) (by simp),
      String.intercalate_singleton, stack]

end VersionSweep.Text
