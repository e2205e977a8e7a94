import VersionSweep.Proofs.Project.Coherence

/-!
# Paths as they are spelled

A path is looked up in the library or among the files as it is spelled, before it is worked off.  So
a path and its canonical form come to the same if both are library paths or none is, but for a
library path that does not end in a name.  Otherwise one of them is looked up in the library and the
other among the files, and what comes of it is the same only if there is one text in both places.
-/

namespace VersionSweep

namespace VirtualPath

variable {path : String} {part name : List Char} {parts : List (List Char)}

/-- Whether a path ends in a name, and not in a slash or in dots. -/
structure EndsInName (path : String) : Prop where
  ne_empty : baseName path ≠ ""
  ne_dot : baseName path ≠ "."
  ne_dots : baseName path ≠ ".."

/-- The name that a path ends in has no slash of either kind in it. -/
theorem slashes_baseName (path : String) :
    '/' ∉ (baseName path).toList ∧ '\\' ∉ (baseName path).toList := by
  have hmem {c : Char} (hc : c ∈ (baseName path).toList) : c ≠ '/' ∧ c ≠ '\\' := by
    rw [baseName, String.toList_ofList, List.mem_reverse] at hc
    simpa using List.mem_takeWhile_imp hc
  exact ⟨fun h ↦ (hmem h).1 rfl, fun h ↦ (hmem h).2 rfl⟩

theorem EndsInName.normal (h : EndsInName path) : Normal (baseName path).toList where
  ne_nil := fun hnil ↦ h.ne_empty (String.toList_eq_nil_iff.1 hnil)
  ne_dot := fun hdot ↦ h.ne_dot (String.toList_injective hdot)
  ne_dots := fun hdots ↦ h.ne_dots (String.toList_injective hdots)
  slash := (slashes_baseName path).1
  backslash := (slashes_baseName path).2

theorem baseName_append_slash (front : List Char) (hslash : '/' ∉ name) (hbackslash : '\\' ∉ name) :
    baseName (String.ofList (front ++ '/' :: name)) = String.ofList name := by
  have hname : ∀ c ∈ name.reverse, (c ≠ '/' && c ≠ '\\') = true := by
    intro c hc
    have hc' := List.mem_reverse.1 hc
    simp only [Bool.and_eq_true, decide_eq_true_iff]
    exact ⟨fun h ↦ hslash (h ▸ hc'), fun h ↦ hbackslash (h ▸ hc')⟩
  rw [baseName, String.toList_ofList, List.reverse_append, List.reverse_cons, List.append_assoc,
    List.takeWhile_append_of_pos hname, List.singleton_append, List.takeWhile_cons_of_neg (by simp),
    List.append_nil, List.reverse_reverse]

/-- From the root on, the name that a path ends in has a slash before it. -/
theorem exists_absolute_eq (path : String) :
    ∃ front, absolute path.toList = front ++ '/' :: (baseName path).toList := by
  let inName (c : Char) : Bool := c ≠ '/' && c ≠ '\\'
  have hname : (baseName path).toList = path.toList.rtakeWhile inName := by
    rw [baseName, String.toList_ofList, List.rtakeWhile]
  have hpath : path.toList.rdropWhile inName ++ path.toList.rtakeWhile inName = path.toList :=
    List.rdropWhile_append_rtakeWhile
  have hforward := forwardSlashes_of_not_mem (slashes_baseName path).2
  rw [← hname] at hpath
  rcases List.eq_nil_or_concat (path.toList.rdropWhile inName) with hnil | ⟨front, last, hlast⟩
  · -- The whole path is a name, so it is read from the project folder.
    rw [hnil, List.nil_append] at hpath
    have hhead : (baseName path).toList.head? ≠ some '/' := fun hhead ↦
      (slashes_baseName path).1 (List.mem_of_head? hhead)
    refine ⟨"/project".toList, ?_⟩
    rw [← hpath, absolute, hforward, if_neg hhead]
    rfl
  · have hstop : ¬ inName last = true := by
      have hne : path.toList.rdropWhile inName ≠ [] := by simp [hlast]
      have hnot := List.rdropWhile_last_not inName path.toList hne
      simpa [hlast] using hnot
    have hslash : forwardSlashes [last] = ['/'] := by
      by_cases h : last = '/' <;> simp_all [inName, forwardSlashes]
    have hslashes : forwardSlashes path.toList =
        forwardSlashes front ++ '/' :: (baseName path).toList := by
      rw [← hpath, hlast, List.concat_eq_append, forwardSlashes_append, forwardSlashes_append,
        hslash, hforward, List.append_assoc, List.singleton_append]
    rw [absolute, hslashes]
    split
    · exact ⟨_, rfl⟩
    · exact ⟨_, (List.append_assoc ..).symm⟩

theorem resolveParts_concat (parts : List (List Char)) (h : Normal part) :
    resolveParts (parts ++ [part]) = resolveParts parts ++ [part] := by
  rw [resolveParts, List.foldl_append, List.foldl_cons, List.foldl_nil, pushPart,
    if_neg (not_or.2 ⟨h.ne_nil, h.ne_dot⟩), if_neg h.ne_dots, List.reverse_cons, resolveParts]

theorem exists_ofParts_concat (parts : List (List Char)) (part : List Char) :
    ∃ front, ofParts (parts ++ [part]) = front ++ '/' :: part := by
  unfold ofParts
  induction parts with
  | nil => exact ⟨[], by rw [List.nil_append, List.intercalate_singleton]; rfl⟩
  | cons first rest ih =>
    obtain ⟨front, hfront⟩ := ih
    refine ⟨'/' :: first ++ front, ?_⟩
    rw [List.cons_append, List.intercalate_cons_of_ne_nil (by simp), List.append_assoc,
      List.singleton_append, hfront]
    simp

/-- A path that ends in a name has a canonical form that ends in the same name. -/
theorem baseName_canonical (h : EndsInName path) : baseName (canonical path) = baseName path := by
  obtain ⟨front, hfront⟩ := exists_absolute_eq path
  have hparts : (absolute path.toList).splitOn '/' =
      front.splitOn '/' ++ [(baseName path).toList] := by
    rw [hfront, List.splitOn_append_cons_self, List.splitOn_eq_singleton h.normal.slash]
  obtain ⟨before, hbefore⟩ :=
    exists_ofParts_concat (resolveParts (front.splitOn '/')) (baseName path).toList
  have hchars : canonicalChars path.toList = before ++ '/' :: (baseName path).toList := by
    rw [← hbefore, ← resolveParts_concat _ h.normal, ← hparts, canonicalChars, ofParts]
  rw [canonical, hchars, baseName_append_slash before h.normal.slash h.normal.backslash,
    String.ofList_toList]

end VirtualPath

/-- Whether two failures are of one kind, whatever paths and reasons they name. -/
def Failure.SameKind (failure other : Failure) : Prop :=
  failure.ctorIdx = other.ctorIdx

def Library.textFor? (library : Library) (path : String) : Option String :=
  (library.read (VirtualPath.baseName path)).toOption

namespace Store

open VirtualPath

/-- Whether two lookups come to the same: to one text, or to failures of one kind. -/
def SameResult : Except Failure String → Except Failure String → Prop
  | .ok text, .ok other => text = other
  | .error failure, .error other => failure.SameKind other
  | _, _ => False

variable {store : Store} {services : Services} {library : Library} {path other : String}

theorem sameResult_self (result : Except Failure String) : SameResult result result := by
  cases result <;> rfl

theorem sameResult_comm {result result' : Except Failure String} :
    SameResult result result' ↔ SameResult result' result := by
  cases result <;> cases result' <;> simp only [SameResult, Failure.SameKind] <;> exact eq_comm

theorem textOf_of_isLibrary (h : isLibrary path = true) :
    store.textOf path = store.readLibrary path :=
  if_pos h

/-- A library path is read as a text of the library, or not at all. -/
theorem readLibrary_cases (store : Store) (path : String) :
    (∃ text, store.library.textFor? path = some text ∧ store.readLibrary path = .ok text) ∨
    ∃ place reason, store.library.textFor? path = none ∧
      store.readLibrary path = .error (.libraryRead place reason) := by
  cases hread : store.library.read (baseName path) with
  | ok text =>
    exact .inl ⟨text, by rw [Library.textFor?, hread]; rfl, by simp only [readLibrary, hread]⟩
  | error failure =>
    exact .inr ⟨_, _, by rw [Library.textFor?, hread]; rfl, by simp only [readLibrary, hread]; rfl⟩

theorem sameResult_readLibrary_iff :
    SameResult (store.readLibrary path) (store.readLibrary other) ↔
      store.library.textFor? path = store.library.textFor? other := by
  rcases store.readLibrary_cases path with ⟨text, htext, h⟩ | ⟨place, reason, htext, h⟩ <;>
    rcases store.readLibrary_cases other with ⟨text', htext', h'⟩ |
      ⟨place', reason', htext', h'⟩ <;>
    rw [h, h', htext, htext'] <;> simp [SameResult, Failure.SameKind, Failure.ctorIdx]

/-- A lookup in the library and one among the files can only come to one text. -/
theorem sameResult_readLibrary_textOf_iff (h : isLibrary other = false) :
    SameResult (store.readLibrary path) (store.textOf other) ↔
      ∃ text, store.files.get? (canonical other) = some text ∧
        store.library.textFor? path = some text := by
  rw [textOf_of_isLibrary_eq_false h]
  rcases store.readLibrary_cases path with ⟨text, htext, h⟩ | ⟨place, reason, htext, h⟩ <;>
    cases store.files.get? (canonical other) <;> rw [h, htext] <;>
    simp [SameResult, Failure.SameKind, Failure.ctorIdx, eq_comm]

theorem readLibrary_eq_of_baseName_eq (h : baseName path = baseName other) :
    store.readLibrary path = store.readLibrary other := by
  rw [readLibrary, readLibrary, h]

/-- Spellings of one path that are on the same side are read alike, down to what a failure says. -/
theorem textOf_canonical (hside : isLibrary path = isLibrary (canonical path))
    (hname : isLibrary path = true → EndsInName path) :
    store.textOf path = store.textOf (canonical path) := by
  cases hpath : isLibrary path with
  | false =>
    rw [textOf_of_isLibrary_eq_false hpath, textOf_of_isLibrary_eq_false (hside ▸ hpath),
      canonical_canonical]
  | true =>
    rw [textOf_of_isLibrary hpath, textOf_of_isLibrary (hside ▸ hpath)]
    exact readLibrary_eq_of_baseName_eq (baseName_canonical (hname hpath)).symm

/-- How a lookup of a path and one of its canonical form compare, by the sides they are on. -/
theorem sameResult_textOf_canonical_iff (store : Store) (path : String) :
    SameResult (store.textOf path) (store.textOf (canonical path)) ↔
      match isLibrary path, isLibrary (canonical path) with
      | false, false => True
      | true, true => store.library.textFor? path = store.library.textFor? (canonical path)
      | true, false => ∃ text, store.files.get? (canonical path) = some text ∧
        store.library.textFor? path = some text
      | false, true => ∃ text, store.files.get? (canonical path) = some text ∧
        store.library.textFor? (canonical path) = some text := by
  cases hpath : isLibrary path <;> cases hcanonical : isLibrary (canonical path) <;> dsimp only
  · have hside : isLibrary path = isLibrary (canonical path) := by rw [hpath, hcanonical]
    have hname : isLibrary path = true → EndsInName path := by simp [hpath]
    rw [← textOf_canonical hside hname]
    exact iff_true_intro (sameResult_self _)
  · rw [sameResult_comm, textOf_of_isLibrary hcanonical, sameResult_readLibrary_textOf_iff hpath]
  · rw [textOf_of_isLibrary hpath, sameResult_readLibrary_textOf_iff hcanonical,
      canonical_canonical]
  · rw [textOf_of_isLibrary hpath, textOf_of_isLibrary hcanonical, sameResult_readLibrary_iff]

theorem fileExists_canonical_iff (store : Store) (path : String) :
    store.fileExists path = store.fileExists (canonical path) ↔
      isLibrary path = isLibrary (canonical path) ∨
        (store.files.get? (canonical path)).isSome = true := by
  rw [fileExists, fileExists, canonical_canonical, OrderedMap.contains]
  cases isLibrary path <;> cases isLibrary (canonical path) <;> simp

/-- A path and its canonical form come to the same if both are library paths or none is, where the
library has one text for both of them, and if not just when the text that the library has for one of
them was also added last at the other.  They are found or not found together unless one is a library
path and nothing was added at the other. -/
theorem sameResult_canonical_iff (services : Services) (library : Library)
    (history : List Operation) (path : String) :
    let store := ofHistory services library history
    let key := canonical path
    (SameResult (store.textOf path) (store.textOf key) ↔
      match isLibrary path, isLibrary key with
      | false, false => True
      | true, true => library.textFor? path = library.textFor? key
      | true, false => ∃ text, lastText? history key = some text ∧
        library.textFor? path = some text
      | false, true => ∃ text, lastText? history key = some text ∧
        library.textFor? key = some text) ∧
    (store.fileExists path = store.fileExists key ↔
      isLibrary path = isLibrary key ∨ (lastText? history key).isSome = true) ∧
    (isLibrary path = isLibrary key → (isLibrary path = true → EndsInName path) →
      store.textOf path = store.textOf key) := by
  have hread := sameResult_textOf_canonical_iff (ofHistory services library history) path
  have hfound := fileExists_canonical_iff (ofHistory services library history) path
  rw [get?_files_ofHistory, library_ofHistory] at hread
  rw [get?_files_ofHistory] at hfound
  exact ⟨hread, hfound, fun hside hname ↦ textOf_canonical hside hname⟩

theorem sameResult_canonical_iff_back_slashes :
    let path := "\\libs/es\\../lib.d.ts"
    let library := Library.ofFiles "lib" [("lib.d.ts", "declare const NaN: number;")]
    let store := ofHistory .language library [.add "../libs/lib.d.ts" "let mine = 1;"]
    isLibrary path = isLibrary (canonical path) ∧ EndsInName path ∧
      store.textOf path = store.textOf (canonical path) ∧
      canonical path = "/libs/lib.d.ts" ∧
      store.textOf path = .ok "declare const NaN: number;" := by
  intro path library store
  have hside : isLibrary path = isLibrary (canonical path) := by decide +kernel
  have hname : EndsInName path := ⟨by decide +kernel, by decide +kernel, by decide +kernel⟩
  obtain ⟨-, -, hsame⟩ := sameResult_canonical_iff .language library
    [.add "../libs/lib.d.ts" "let mine = 1;"] path
  exact ⟨hside, hname, hsame hside fun _ ↦ hname, by decide +kernel, by decide +kernel⟩

/-- A library path that leads to an added file is not read as that file. -/
theorem textOf_ne_of_spelled_in_library :
    let library := Library.ofFiles "lib" [("lib.d.ts", "declare const NaN: number;")]
    let store := ofHistory .language library [.add "/libs/../a.ts" "let a = 1;"]
    canonical "/libs/../a.ts" = "/a.ts" ∧
      store.textOf "/libs/../a.ts" =
        .error (.libraryRead "lib/a.ts" "No such file or directory (os error 2)") ∧
      store.textOf "/a.ts" = .ok "let a = 1;" ∧
      ¬ SameResult (store.textOf "/libs/../a.ts") (store.textOf (canonical "/libs/../a.ts")) ∧
      canonical "/libs/../b.ts" = "/b.ts" ∧
      store.fileExists "/libs/../b.ts" = true ∧ store.fileExists "/b.ts" = false := by
  intro library store
  have hread : store.textOf "/libs/../a.ts" =
      .error (.libraryRead "lib/a.ts" "No such file or directory (os error 2)") := by
    decide +kernel
  have hadded : store.textOf (canonical "/libs/../a.ts") = .ok "let a = 1;" := by decide +kernel
  refine ⟨by decide, hread, hadded, ?_, by decide, rfl, rfl⟩
  rw [hread, hadded]
  exact id

end Store

end VersionSweep
