import Mathlib.Data.List.DropRight
import VersionSweep.Text.Blank

/-!
# Trimmed texts

A text is cut at its end as far as there are blanks, so what is left is that part of it behind which
there are only blanks and which does not end in one.  Cutting it once more takes nothing away.
-/

namespace VersionSweep.Text

variable {c : Char} {cs ds blanks : List Char}

theorem isPrefix_trimEnd (cs : List Char) : trimEnd cs <+: cs :=
  List.rdropWhile_prefix isBlank cs

theorem trimEnd_trimEnd (cs : List Char) : trimEnd (trimEnd cs) = trimEnd cs :=
  List.rdropWhile_idempotent isBlank cs

/-- A prefix of a text that begins with no blank begins with no blank. -/
theorem trimStart_of_prefix (h : cs <+: ds) (hds : trimStart ds = ds) : trimStart cs = cs := by
  cases cs with
  | nil => rfl
  | cons c rest =>
    obtain ⟨tail, rfl⟩ := h
    rw [trimStart, List.cons_append, List.dropWhile_eq_self_iff] at hds
    have hc : ¬ isBlank c = true := hds (Nat.succ_pos _)
    rw [trimStart, List.dropWhile_cons_of_neg hc]

@[simp] theorem trim_trim (cs : List Char) : trim (trim cs) = trim cs := by
  have hstart : trimStart (trimStart cs) = trimStart cs := List.dropWhile_idempotent isBlank cs
  have h : trimStart (trim cs) = trim cs := trimStart_of_prefix (isPrefix_trimEnd _) hstart
  rw [trim, h, trim, trimEnd_trimEnd]

theorem mem_of_mem_trim (h : c ∈ trim cs) : c ∈ cs :=
  (List.dropWhile_suffix isBlank).subset ((isPrefix_trimEnd _).subset h)

theorem exists_trimEnd_append (cs : List Char) :
    ∃ blanks, cs = trimEnd cs ++ blanks ∧ ∀ c ∈ blanks, isBlank c = true := by
  refine ⟨(cs.reverse.takeWhile isBlank).reverse, ?_, fun c hc ↦ ?_⟩
  · rw [trimEnd, ← List.reverse_append, List.takeWhile_append_dropWhile, List.reverse_reverse]
  · exact List.mem_takeWhile_imp (List.mem_reverse.1 hc)

/-- What is not blank stays where it is when the blanks at the end are cut off. -/
theorem getElem?_trimEnd_eq_some_iff (hc : isBlank c = false) {column : Nat} :
    (trimEnd cs)[column]? = some c ↔ cs[column]? = some c := by
  obtain ⟨blanks, hcs, hblanks⟩ := exists_trimEnd_append cs
  conv_rhs => rw [hcs, List.getElem?_append]
  split
  · rfl
  · rename_i hcut
    rw [List.getElem?_eq_none (Nat.le_of_not_lt hcut)]
    refine ⟨fun h ↦ (Option.some_ne_none c h.symm).elim, fun h ↦ ?_⟩
    rw [hblanks c (List.mem_of_getElem? h)] at hc
    cases hc

theorem trimEnd_eq_self_iff : trimEnd cs = cs ↔ ∀ c ∈ cs.getLast?, isBlank c = false := by
  rw [trimEnd, ← List.rdropWhile, List.rdropWhile_eq_self_iff]
  cases cs using List.reverseRecOn with
  | nil => simp
  | append_singleton rest last => simp

theorem trimEnd_append_of_blank (h : ∀ c ∈ blanks, isBlank c = true) :
    trimEnd (cs ++ blanks) = trimEnd cs := by
  rw [trimEnd, List.reverse_append, List.dropWhile_append_of_pos, trimEnd]
  exact fun c hc ↦ h c (List.mem_reverse.1 hc)

/-- What is left of a text is said by the blanks behind it and by not ending in one. -/
theorem trimEnd_eq_iff {kept : List Char} :
    trimEnd cs = kept ↔
      (∃ blanks, cs = kept ++ blanks ∧ ∀ c ∈ blanks, isBlank c = true) ∧
        ∀ c ∈ kept.getLast?, isBlank c = false := by
  constructor
  · rintro rfl
    exact ⟨exists_trimEnd_append cs, trimEnd_eq_self_iff.1 (trimEnd_trimEnd cs)⟩
  · rintro ⟨⟨blanks, rfl, hblanks⟩, hlast⟩
    rw [trimEnd_append_of_blank hblanks, trimEnd_eq_self_iff.2 hlast]

end VersionSweep.Text
