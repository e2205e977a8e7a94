/-!
# Patterns

A pattern describes a whole text as a row of pieces, each of them one character or a run of
characters of a class.  A run takes as much as it can and gives back only what the pieces behind it
need.  `Matches` says which runs a text may be taken apart into.  What is found is such runs, and
some are found if there are any.
-/

namespace VersionSweep.Text

/-- A piece of a pattern. -/
inductive Piece where
  | char (c : Char)
  /-- Characters of a class, of which there are bounds for the number. -/
  | run (least : Nat) (most : Option Nat) (p : Char → Bool)

namespace Piece

/-- The lengths that a run may have at the beginning of a text, greatest first. -/
def lengths (least : Nat) (most : Option Nat) (p : Char → Bool) (cs : List Char) : List Nat :=
  let taken := (cs.takeWhile p).length
  let greatest := match most with
    | none => taken
    | some most => min most taken
  (List.range' least (greatest + 1 - least)).reverse

/-- The runs that a text is taken apart into by a pattern. -/
def match? : List Piece → List Char → Option (List (List Char))
  | [], [] => some []
  | [], _ :: _ => none
  | .char _ :: _, [] => none
  | .char c :: pieces, d :: cs => if d = c then match? pieces cs else none
  | .run least most p :: pieces, cs =>
    (lengths least most p cs).findSome? fun length ↦
      (match? pieces (cs.drop length)).map fun runs ↦ cs.take length :: runs

/-- Whether a text is made of the pieces of a pattern, with these runs. -/
inductive Matches : List Piece → List Char → List (List Char) → Prop
  | nil : Matches [] [] []
  | char {c : Char} {pieces : List Piece} {cs : List Char} {runs : List (List Char)} :
      Matches pieces cs runs → Matches (.char c :: pieces) (c :: cs) runs
  | run {least : Nat} {most : Option Nat} {p : Char → Bool} {pieces : List Piece}
      {taken cs : List Char} {runs : List (List Char)} : least ≤ taken.length →
      (∀ length ∈ most, taken.length ≤ length) → (∀ c ∈ taken, p c = true) →
      Matches pieces cs runs →
      Matches (.run least most p :: pieces) (taken ++ cs) (taken :: runs)

variable {least : Nat} {most : Option Nat} {p : Char → Bool} {cs : List Char}

theorem mem_lengths_iff {length : Nat} :
    length ∈ lengths least most p cs ↔
      least ≤ length ∧ (∀ greatest ∈ most, length ≤ greatest) ∧
        length ≤ (cs.takeWhile p).length := by
  unfold lengths
  rw [List.mem_reverse, List.mem_range'_1]
  cases most with
  | none => simp; omega
  | some most => simp; omega

theorem length_mem_lengths_iff {taken : List Char} :
    taken.length ∈ lengths least most p (taken ++ cs) ↔
      least ≤ taken.length ∧ (∀ length ∈ most, taken.length ≤ length) ∧
        ∀ c ∈ taken, p c = true := by
  rw [mem_lengths_iff]
  refine and_congr_right fun _ ↦ and_congr_right fun _ ↦ ⟨fun hlength c hc ↦ ?_, fun hall ↦ ?_⟩
  · have hbegins : taken <+: (taken ++ cs).takeWhile p :=
      List.prefix_of_prefix_length_le (List.prefix_append taken cs) (List.takeWhile_prefix p)
        hlength
    exact List.all_eq_true.1 List.all_takeWhile c (hbegins.subset hc)
  · rw [List.takeWhile_append_of_pos hall, List.length_append]
    exact Nat.le_add_right ..

theorem matches_of_match? {pieces : List Piece} {runs : List (List Char)}
    (h : match? pieces cs = some runs) : Matches pieces cs runs := by
  induction pieces generalizing cs runs with
  | nil =>
    cases cs with
    | nil =>
      obtain rfl := Option.some.inj h
      exact .nil
    | cons c cs => cases h
  | cons piece pieces ih =>
    cases piece with
    | char c =>
      cases cs with
      | nil => cases h
      | cons d cs =>
        rw [match?] at h
        split at h
        · rename_i heq
          exact heq ▸ .char (ih h)
        · cases h
    | run least most p =>
      rw [match?] at h
      obtain ⟨length, hlength, hrest⟩ := List.exists_of_findSome?_eq_some h
      obtain ⟨rest, hmatch, rfl⟩ := Option.map_eq_some_iff.1 hrest
      have hle : length ≤ cs.length :=
        Nat.le_trans (mem_lengths_iff.1 hlength).2.2 (List.takeWhile_prefix p).length_le
      have htaken : (cs.take length).length ∈
          lengths least most p (cs.take length ++ cs.drop length) := by
        rwa [List.take_append_drop, List.length_take_of_le hle]
      obtain ⟨hleast, hmost, hall⟩ := length_mem_lengths_iff.1 htaken
      have hmatches := Matches.run hleast hmost hall (ih hmatch)
      rwa [List.take_append_drop] at hmatches

theorem isSome_match?_of_matches {pieces : List Piece} {runs : List (List Char)}
    (h : Matches pieces cs runs) : (match? pieces cs).isSome = true := by
  induction h with
  | nil => rfl
  | char _ ih =>
    rw [match?, if_pos rfl]
    exact ih
  | run hleast hmost hall _ ih =>
    rw [match?, List.findSome?_isSome_iff]
    refine ⟨_, length_mem_lengths_iff.2 ⟨hleast, hmost, hall⟩, ?_⟩
    rw [Option.isSome_map, List.drop_left]
    exact ih

end Piece

end VersionSweep.Text
