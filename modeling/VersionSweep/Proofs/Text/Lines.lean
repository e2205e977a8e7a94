import Mathlib.Data.List.InsertIdx
import VersionSweep.Text.Line

/-!
# Lines of texts and of files

A text is cut into lines at its line feeds, so it is no matter which of them have a carriage return
before them.  The lines of a file are joined by a carriage return with a line feed.  They have no
line feeds of their own, so they can be told from the content of the file, though carriage returns
may stand anywhere in them.
-/

namespace VersionSweep.Text

theorem mem_splitOn {c : Char} {cs part : List Char} (h : part ∈ cs.splitOn c) :
    c ∉ part ∧ ∀ d ∈ part, d ∈ cs := by
  induction cs generalizing part with
  | nil =>
    obtain rfl : part = [] := by simpa using h
    exact ⟨List.not_mem_nil, fun d hd ↦ hd⟩
  | cons first rest ih =>
    rw [List.splitOn_cons_eq_if_modifyHead] at h
    split at h
    · rcases List.mem_cons.1 h with rfl | h
      · exact ⟨List.not_mem_nil, fun d hd ↦ (List.not_mem_nil hd).elim⟩
      · exact ⟨(ih h).1, fun d hd ↦ List.mem_cons_of_mem _ ((ih h).2 d hd)⟩
    · rename_i hne
      obtain ⟨head, tail, hsplit⟩ := List.exists_cons_of_ne_nil (List.splitOn_ne_nil c rest)
      rw [hsplit] at ih h
      rcases List.mem_cons.1 h with rfl | h
      · obtain ⟨hc, hmem⟩ := ih (List.mem_cons_self ..)
        refine ⟨?_, fun d hd ↦ ?_⟩
        · simpa [hc] using fun h : c = first ↦ hne (by simp [h])
        · exact (List.mem_cons.1 hd).elim (fun h ↦ h ▸ List.mem_cons_self ..)
            fun hd ↦ List.mem_cons_of_mem _ (hmem d hd)
      · obtain ⟨hc, hmem⟩ := ih (List.mem_cons_of_mem _ h)
        exact ⟨hc, fun d hd ↦ List.mem_cons_of_mem _ (hmem d hd)⟩

section Lines

variable {line : List Char} {lines : List (List Char)}

theorem mem_of_mem_dropReturn {c : Char} (h : c ∈ dropReturn line) : c ∈ line := by
  unfold dropReturn at h
  split at h
  · exact List.dropLast_subset line h
  · exact h

theorem not_mem_of_mem_rawLines {cs : List Char} (h : line ∈ rawLines cs) : '\n' ∉ line :=
  (mem_splitOn h).1

theorem rawLines_ne_nil (cs : List Char) : rawLines cs ≠ [] :=
  List.splitOn_ne_nil '\n' cs

theorem not_mem_of_mem_splitLines {text line : String} (h : line ∈ splitLines text) :
    '\n' ∉ line.toList := by
  obtain ⟨raw, hraw, rfl⟩ := List.mem_map.1 h
  rw [String.toList_ofList]
  exact fun hmem ↦ not_mem_of_mem_rawLines hraw (mem_of_mem_dropReturn hmem)

theorem splitLines_append (first second : String) :
    splitLines (first ++ "\n" ++ second) = splitLines first ++ splitLines second := by
  have htext : (first ++ "\n" ++ second).toList = first.toList ++ '\n' :: second.toList := by simp
  rw [splitLines, htext, rawLines, List.splitOn_append_cons_self, List.map_append]
  rfl

theorem splitLines_of_not_mem {line : String} (h : '\n' ∉ line.toList) :
    splitLines line = [String.ofList (dropReturn line.toList)] := by
  rw [splitLines, rawLines, List.splitOn_eq_singleton h, List.map_singleton]

theorem length_rawLines (cs : List Char) : (rawLines cs).length = cs.count '\n' + 1 := by
  induction cs with
  | nil => rfl
  | cons c cs ih =>
    rw [rawLines, List.splitOn_cons_eq_if_modifyHead, List.count_cons]
    split
    · rw [List.length_cons, ← rawLines, ih]
    · rw [List.length_modifyHead, ← rawLines, ih, Nat.add_zero]

/-- A text has one more line than it has line feeds. -/
theorem length_splitLines (text : String) :
    (splitLines text).length = text.toList.count '\n' + 1 := by
  rw [splitLines, List.length_map, length_rawLines]

def ofRawLines (lines : List (List Char)) : String :=
  String.ofList (['\n'].intercalate lines)

theorem splitLines_ofRawLines (h : ∀ line ∈ lines, '\n' ∉ line) (hne : lines ≠ []) :
    splitLines (ofRawLines lines) = lines.map fun line ↦ String.ofList (dropReturn line) := by
  rw [splitLines, ofRawLines, String.toList_ofList, rawLines, List.splitOn_intercalate '\n' h hne]

end Lines

def withReturn (line : List Char) : List Char :=
  if line.getLast? = some '\r' then line else line ++ ['\r']

theorem dropReturn_withReturn (line : List Char) :
    dropReturn (withReturn line) = dropReturn line := by
  unfold withReturn
  split
  · rfl
  · rename_i hnone
    simp [dropReturn, hnone]

/-- A text in which the line breaks behind the chosen lines, lines counted from zero, are written
with a carriage return. -/
def addReturns (chosen : Nat → Bool) (text : String) : String :=
  let lines := rawLines text.toList
  ofRawLines (lines.zipIdx.map fun (line, number) ↦
    if chosen number && number + 1 < lines.length then withReturn line else line)

/-- A text with one more line at a place among its lines, lines counted from zero. -/
def insertLine (place : Nat) (line text : String) : String :=
  ofRawLines ((rawLines text.toList).insertIdx place line.toList)

/-- The lines of a text do not depend on how its line breaks are written. -/
theorem splitLines_addReturns (chosen : Nat → Bool) (text : String) :
    splitLines (addReturns chosen text) = splitLines text := by
  rw [addReturns, splitLines_ofRawLines, List.map_map, splitLines]
  · conv_rhs => rw [← List.zipIdx_map_fst 0 (rawLines text.toList), List.map_map]
    refine List.map_congr_left fun entry _ ↦ ?_
    dsimp only [Function.comp_apply]
    split
    · rw [dropReturn_withReturn]
    · rfl
  · intro line hline
    obtain ⟨⟨raw, number⟩, hentry, rfl⟩ := List.mem_map.1 hline
    have hraw := not_mem_of_mem_rawLines (List.fst_mem_of_mem_zipIdx hentry)
    dsimp only
    unfold withReturn
    split
    · split
      · exact hraw
      · simp [hraw]
    · exact hraw
  · simp [rawLines_ne_nil]

theorem splitLines_insertLine (place : Nat) {line : String} (h : '\n' ∉ line.toList)
    (text : String) :
    splitLines (insertLine place line text) =
      (splitLines text).insertIdx place (String.ofList (dropReturn line.toList)) := by
  rw [insertLine, splitLines_ofRawLines, List.map_insertIdx, splitLines]
  · intro raw hraw
    obtain rfl | hraw := List.eq_or_mem_of_mem_insertIdx hraw
    · exact h
    · exact not_mem_of_mem_rawLines hraw
  · intro hnil
    obtain ⟨raw, more, hraw⟩ := List.exists_cons_of_ne_nil (rawLines_ne_nil text.toList)
    rw [hraw] at hnil
    cases place <;> cases hnil

/-- A text cut at each carriage return that has a line feed behind it. -/
def cutAtBreaks : List Char → List (List Char)
  | [] => [[]]
  | '\r' :: '\n' :: rest => [] :: cutAtBreaks rest
  | c :: rest => (cutAtBreaks rest).modifyHead (c :: ·)

/-- The lines of a file that was put together from a snippet.  An empty file has none. -/
def fileLines (content : String) : List String :=
  if content = "" then [] else (cutAtBreaks content.toList).map String.ofList

section Breaks

variable {line rest : List Char}

theorem cutAtBreaks_cons {c : Char} (h : rest.head? ≠ some '\n') :
    cutAtBreaks (c :: rest) = (cutAtBreaks rest).modifyHead (c :: ·) := by
  rw [cutAtBreaks]
  rintro more - rfl
  exact h rfl

theorem cutAtBreaks_of_not_mem (h : '\n' ∉ line) : cutAtBreaks line = [line] := by
  induction line with
  | nil => rfl
  | cons c cs ih =>
    have hcs : '\n' ∉ cs := fun hmem ↦ h (List.mem_cons_of_mem _ hmem)
    have hhead : cs.head? ≠ some '\n' := fun hsome ↦ hcs (List.mem_of_head? hsome)
    rw [cutAtBreaks_cons hhead, ih hcs]
    rfl

theorem cutAtBreaks_append (h : '\n' ∉ line) (rest : List Char) :
    cutAtBreaks (line ++ '\r' :: '\n' :: rest) = line :: cutAtBreaks rest := by
  induction line with
  | nil => rfl
  | cons c cs ih =>
    have hcs : '\n' ∉ cs := fun hmem ↦ h (List.mem_cons_of_mem _ hmem)
    have hhead : (cs ++ '\r' :: '\n' :: rest).head? ≠ some '\n' := by
      cases cs with
      | nil => simp
      | cons d ds => exact fun hsome ↦ hcs (List.mem_of_head? hsome)
    rw [List.cons_append, cutAtBreaks_cons hhead, ih hcs]
    rfl

theorem cutAtBreaks_intercalate {lines : List (List Char)} (h : ∀ line ∈ lines, '\n' ∉ line)
    (hne : lines ≠ []) : cutAtBreaks (lineBreak.toList.intercalate lines) = lines := by
  induction lines with
  | nil => exact absurd rfl hne
  | cons line rest ih =>
    obtain ⟨hline, hrest⟩ := List.forall_mem_cons.1 h
    cases rest with
    | nil => rw [List.intercalate_singleton, cutAtBreaks_of_not_mem hline]
    | cons next rest =>
      rw [List.intercalate_cons_cons, List.append_assoc]
      exact (cutAtBreaks_append hline _).trans (congrArg _ (ih hrest (List.cons_ne_nil next rest)))

end Breaks

/-- The lines of a file are those that it was put together from. -/
theorem fileLines_joinLines {lines : List String} (h : ∀ line ∈ lines, '\n' ∉ line.toList)
    (hcontent : joinLines lines = "" → lines = []) : fileLines (joinLines lines) = lines := by
  unfold fileLines
  split
  · rename_i hempty
    exact (hcontent hempty).symm
  · rename_i hcontent
    have hne : lines ≠ [] := by
      rintro rfl
      exact hcontent rfl
    rw [joinLines, String.toList_intercalate, cutAtBreaks_intercalate, List.map_map]
    · simp [Function.comp_def]
    · simpa using h
    · simpa using hne

end VersionSweep.Text
