import VersionSweep.Proofs.Text.Lines

/-!
# What the lines of a block leave out

The lines of a block are those of its text with line feeds for all line breaks and with its last
line closed, `flatMap_blockLines`.  Two blocks have the same lines exactly if these texts are the
same.
-/

namespace VersionSweep.Text

def foldBreaks : List Char → List Char
  | [] => []
  | '\r' :: '\n' :: rest => '\n' :: foldBreaks rest
  | c :: rest => c :: foldBreaks rest

def closeLast (cs : List Char) : List Char :=
  if cs.getLast?.all (· = '\n') then cs else cs ++ ['\n']

def folded (block : String) : List Char :=
  closeLast (foldBreaks block.toList)

variable {c : Char} {line cs rest : List Char}

theorem foldBreaks_cons (h : c ≠ '\r' ∨ rest.head? ≠ some '\n') :
    foldBreaks (c :: rest) = c :: foldBreaks rest := by
  rw [foldBreaks]
  rintro tail rfl rfl
  simp at h

theorem dropReturn_cons (h : line ≠ []) : dropReturn (c :: line) = c :: dropReturn line := by
  obtain ⟨d, more, rfl⟩ := List.exists_cons_of_ne_nil h
  unfold dropReturn
  rw [List.getLast?_cons_cons]
  split
  · rw [List.dropLast_cons_cons]
  · rfl

theorem foldBreaks_of_not_mem (h : '\n' ∉ cs) : foldBreaks cs = cs := by
  induction cs with
  | nil => rfl
  | cons c cs ih =>
    rw [List.mem_cons, not_or] at h
    rw [foldBreaks_cons (.inr fun hhead ↦ h.2 (List.mem_of_mem_head? hhead)), ih h.2]

theorem foldBreaks_line (h : '\n' ∉ line) (rest : List Char) :
    foldBreaks (line ++ '\n' :: rest) = dropReturn line ++ '\n' :: foldBreaks rest := by
  induction line with
  | nil => rfl
  | cons c line ih =>
    rw [List.mem_cons, not_or] at h
    rcases eq_or_ne line [] with rfl | hline
    · -- The last character of the line is left out if it is a carriage return.
      by_cases hc : c = '\r'
      · subst hc
        rfl
      · rw [List.singleton_append, foldBreaks_cons (.inl hc)]
        simp [dropReturn, hc, foldBreaks]
    · rw [List.cons_append, foldBreaks_cons, ih h.2, dropReturn_cons hline, List.cons_append]
      obtain ⟨d, more, rfl⟩ := List.exists_cons_of_ne_nil hline
      simp only [List.mem_cons, not_or] at h
      exact .inr (by simpa using Ne.symm h.2.1)

theorem closeLast_line (line rest : List Char) :
    closeLast (line ++ '\n' :: rest) = line ++ '\n' :: closeLast rest := by
  have hlast : (line ++ '\n' :: rest).getLast?.all (· = '\n') = rest.getLast?.all (· = '\n') := by
    rw [List.getLast?_append, List.getLast?_cons, Option.some_or]
    cases rest.getLast? <;> rfl
  rw [closeLast, closeLast, hlast]
  split
  · rfl
  · rw [List.append_assoc, List.cons_append]

theorem blockLines_of_not_mem (h : '\n' ∉ cs) :
    blockLines (String.ofList cs) = if cs = [] then [] else [String.ofList cs] := by
  rw [blockLines, String.toList_ofList, rawLines, List.splitOn_eq_singleton h]
  cases cs <;> rfl

theorem blockLines_line (h : '\n' ∉ line) (rest : List Char) :
    blockLines (String.ofList (line ++ '\n' :: rest)) =
      String.ofList (dropReturn line) :: blockLines (String.ofList rest) := by
  have hlines : rawLines (line ++ '\n' :: rest) = line :: rawLines rest := by
    rw [rawLines, List.splitOn_append_cons_self, List.splitOn_eq_singleton h]
    rfl
  obtain ⟨first, more, hrest⟩ := List.exists_cons_of_ne_nil (rawLines_ne_nil rest)
  rw [blockLines, blockLines, String.toList_ofList, String.toList_ofList, hlines, hrest,
    List.dropLast_cons_cons, List.getLast?_cons_cons]
  split <;> rfl

/-- A text is its last line, or a line that is closed and a text behind it. -/
theorem line_induction {motive : List Char → Prop} (last : ∀ cs, '\n' ∉ cs → motive cs)
    (closed : ∀ line rest, '\n' ∉ line → motive rest → motive (line ++ '\n' :: rest))
    (cs : List Char) : motive cs := by
  by_cases h : '\n' ∈ cs
  · obtain ⟨line, rest, rfl, hline⟩ := List.eq_append_cons_of_mem h
    exact closed line rest hline (line_induction last closed rest)
  · exact last cs h
termination_by cs.length
decreasing_by
  subst_vars
  rw [List.length_append, List.length_cons]
  omega

theorem flatMap_blockLines (cs : List Char) :
    ((blockLines (String.ofList cs)).flatMap fun line ↦ line.toList ++ ['\n']) =
      closeLast (foldBreaks cs) := by
  induction cs using line_induction with
  | last cs h =>
    rw [blockLines_of_not_mem h, foldBreaks_of_not_mem h]
    split
    · rename_i hnil
      rw [hnil]
      rfl
    · rw [List.flatMap_singleton, String.toList_ofList, closeLast, if_neg]
      rw [List.getLast?_eq_some_getLast ‹_›, Option.all_some, decide_eq_true_iff]
      exact fun hlast ↦ h (hlast ▸ List.getLast_mem _)
  | closed line rest h ih =>
    rw [blockLines_line h, List.flatMap_cons, ih, foldBreaks_line h, closeLast_line,
      String.toList_ofList, List.append_assoc]
    rfl

theorem not_mem_of_mem_blockLines (cs : List Char) :
    ∀ line ∈ blockLines (String.ofList cs), '\n' ∉ line.toList := by
  induction cs using line_induction with
  | last cs h =>
    rw [blockLines_of_not_mem h]
    split
    · exact fun line hline ↦ absurd hline List.not_mem_nil
    · rw [List.forall_mem_singleton, String.toList_ofList]
      exact h
  | closed line rest h ih =>
    rw [blockLines_line h]
    refine List.forall_mem_cons.2 ⟨?_, ih⟩
    rw [String.toList_ofList]
    exact mt mem_of_mem_dropReturn h

theorem rawLines_flatMap {lines : List (List Char)} (h : ∀ line ∈ lines, '\n' ∉ line) :
    rawLines (lines.flatMap fun line ↦ line ++ ['\n']) = lines ++ [[]] := by
  induction lines with
  | nil => rfl
  | cons line lines ih =>
    obtain ⟨hline, hlines⟩ := List.forall_mem_cons.1 h
    rw [List.flatMap_cons, List.append_assoc, List.singleton_append, rawLines,
      List.splitOn_append_cons_self, List.splitOn_eq_singleton hline, ← rawLines, ih hlines]
    rfl

/-- Whether the given lines are those of a block: none goes on behind a line feed, and each closed
by one they are what the lines of the block tell about it. -/
structure HasLines (block : String) (lines : List String) : Prop where
  whole : ∀ line ∈ lines, '\n' ∉ line.toList
  closed : folded block = lines.flatMap fun line ↦ line.toList ++ ['\n']

theorem hasLines_blockLines (block : String) : HasLines block (blockLines block) := by
  constructor
  · have hmem := not_mem_of_mem_blockLines block.toList
    rwa [String.ofList_toList] at hmem
  · rw [folded, ← flatMap_blockLines, String.ofList_toList]

/-- What is told about a block can be cut into lines in one way only. -/
theorem HasLines.eq_of_folded_eq {block other : String} {lines lines' : List String}
    (h : HasLines block lines) (h' : HasLines other lines')
    (hfolded : folded block = folded other) : lines = lines' := by
  have hcut {block : String} {lines : List String} (h : HasLines block lines) :
      rawLines (folded block) = lines.map String.toList ++ [[]] := by
    rw [h.closed, ← List.flatMap_map String.toList (fun line ↦ line ++ ['\n']), rawLines_flatMap]
    exact List.forall_mem_map.2 h.whole
  have happend := (hcut h).symm.trans (hfolded ▸ hcut h')
  exact (List.map_inj_right fun _ _ ↦ String.toList_injective).1 (List.append_cancel_right happend)

/-- Two blocks have the same lines exactly if they are the same but for their line breaks. -/
theorem blockLines_eq_iff (old new : String) :
    blockLines old = blockLines new ↔ folded old = folded new := by
  constructor
  · intro h
    rw [(hasLines_blockLines old).closed, (hasLines_blockLines new).closed, h]
  · exact (hasLines_blockLines old).eq_of_folded_eq (hasLines_blockLines new)

end VersionSweep.Text
