import VersionSweep.Project.Store
import VersionSweep.Proofs.Text.Lines

/-!
# Canonical paths

A canonical path goes from the root through normal parts, and a path of that form is its own
canonical form.  So neither the shortened name of a canonical path nor a path that shares the handle
with another one leads elsewhere.
-/

namespace VersionSweep

namespace VirtualPath

/-- A part that canonical paths are made of: it names something, and it is one part. -/
structure Normal (part : List Char) : Prop where
  ne_nil : part ≠ []
  ne_dot : part ≠ ['.']
  ne_dots : part ≠ ['.', '.']
  slash : '/' ∉ part
  backslash : '\\' ∉ part

def ofParts (parts : List (List Char)) : List Char :=
  '/' :: ['/'].intercalate parts

theorem not_mem_forwardSlashes (cs : List Char) : '\\' ∉ forwardSlashes cs := by
  intro h
  obtain ⟨c, -, hc⟩ := List.mem_map.1 h
  split at hc
  · cases hc
  · contradiction

theorem forwardSlashes_of_not_mem {cs : List Char} (h : '\\' ∉ cs) : forwardSlashes cs = cs := by
  refine (List.map_congr_left fun c hc ↦ ?_).trans (List.map_id cs)
  exact if_neg fun hbackslash : c = '\\' ↦ h (hbackslash ▸ hc)

theorem forwardSlashes_append (front back : List Char) :
    forwardSlashes (front ++ back) = forwardSlashes front ++ forwardSlashes back :=
  List.map_append

theorem not_mem_absolute (path : List Char) : '\\' ∉ absolute path := by
  unfold absolute
  dsimp only
  split
  · exact not_mem_forwardSlashes path
  · intro h
    rcases List.mem_append.1 h with h | h
    · exact absurd h (by decide)
    · exact not_mem_forwardSlashes path h

theorem normal_resolveParts {parts : List (List Char)}
    (h : ∀ part ∈ parts, '/' ∉ part ∧ '\\' ∉ part) :
    ∀ part ∈ resolveParts parts, Normal part := by
  have hfold : ∀ part ∈ parts.foldl pushPart [], Normal part := by
    refine List.foldlRecOn (motive := fun held ↦ ∀ part ∈ held, Normal part) parts _
      (fun _ h ↦ (List.not_mem_nil h).elim) fun held hheld part hpart ↦ ?_
    unfold pushPart
    split
    · exact hheld
    rename_i hnamed
    split
    · exact fun other hother ↦ hheld other (List.mem_of_mem_tail hother)
    · rename_i hdots
      intro other hother
      rcases List.mem_cons.1 hother with rfl | hother
      · rw [not_or] at hnamed
        exact ⟨hnamed.1, hnamed.2, hdots, (h other hpart).1, (h other hpart).2⟩
      · exact hheld other hother
  exact fun part hpart ↦ hfold part (List.mem_reverse.1 hpart)

theorem foldl_pushPart_of_normal {parts : List (List Char)} (h : ∀ part ∈ parts, Normal part)
    (held : List (List Char)) : parts.foldl pushPart held = parts.reverse ++ held := by
  induction parts generalizing held with
  | nil => rfl
  | cons part rest ih =>
    obtain ⟨hpart, hrest⟩ := List.forall_mem_cons.1 h
    rw [List.foldl_cons, pushPart, if_neg (not_or.2 ⟨hpart.ne_nil, hpart.ne_dot⟩),
      if_neg hpart.ne_dots, ih hrest, List.reverse_cons, List.append_assoc]
    rfl

theorem resolveParts_of_normal {parts : List (List Char)} (h : ∀ part ∈ parts, Normal part) :
    resolveParts parts = parts := by
  rw [resolveParts, foldl_pushPart_of_normal h, List.append_nil, List.reverse_reverse]

/-- The parts of a path have no slash of either kind in them. -/
theorem slashes_of_mem_splitOn_absolute (path : List Char) :
    ∀ part ∈ (absolute path).splitOn '/', '/' ∉ part ∧ '\\' ∉ part := by
  intro part hpart
  obtain ⟨hslash, hmem⟩ := Text.mem_splitOn hpart
  exact ⟨hslash, fun hbackslash ↦ not_mem_absolute path (hmem _ hbackslash)⟩

theorem exists_canonicalChars_eq (path : List Char) :
    ∃ parts, (∀ part ∈ parts, Normal part) ∧ canonicalChars path = ofParts parts :=
  ⟨_, normal_resolveParts (slashes_of_mem_splitOn_absolute path), rfl⟩

theorem mem_intercalate {c : Char} {separator : List Char} {parts : List (List Char)}
    (h : c ∈ separator.intercalate parts) : c ∈ separator ∨ ∃ part ∈ parts, c ∈ part := by
  induction parts with
  | nil => cases h
  | cons part rest ih =>
    cases rest with
    | nil =>
      rw [List.intercalate_singleton] at h
      exact .inr ⟨part, List.mem_cons_self .., h⟩
    | cons next rest =>
      rw [List.intercalate_cons_cons, List.mem_append, List.mem_append] at h
      rcases h with (h | h) | h
      · exact .inr ⟨part, List.mem_cons_self .., h⟩
      · exact .inl h
      · exact (ih h).imp_right fun ⟨other, hother, hc⟩ ↦
          ⟨other, List.mem_cons_of_mem _ hother, hc⟩

theorem not_mem_ofParts {parts : List (List Char)} (h : ∀ part ∈ parts, Normal part) :
    '\\' ∉ ofParts parts := by
  intro hmem
  rcases List.mem_cons.1 hmem with hmem | hmem
  · cases hmem
  · obtain hslash | ⟨part, hpart, hmem⟩ := mem_intercalate hmem
    · cases List.mem_singleton.1 hslash
    · exact (h part hpart).backslash hmem

theorem splitOn_ofParts {parts : List (List Char)} (h : ∀ part ∈ parts, Normal part) :
    (ofParts parts).splitOn '/' = [] :: if parts = [] then [[]] else parts := by
  rw [ofParts, List.splitOn_cons_eq_if_modifyHead, if_pos (by simp)]
  split
  · rename_i hnil
    rw [hnil, List.intercalate_nil, List.splitOn_nil]
  · rename_i hne
    rw [List.splitOn_intercalate '/' (fun part hpart ↦ (h part hpart).slash) hne]

theorem absolute_ofParts {parts : List (List Char)} (h : ∀ part ∈ parts, Normal part) :
    absolute (ofParts parts) = ofParts parts := by
  rw [absolute, forwardSlashes_of_not_mem (not_mem_ofParts h)]
  exact if_pos rfl

theorem resolveParts_splitOn_ofParts {parts : List (List Char)} (h : ∀ part ∈ parts, Normal part)
    (more : List (List Char)) :
    resolveParts ((ofParts parts).splitOn '/' ++ more) = resolveParts (parts ++ more) := by
  rw [splitOn_ofParts h]
  split
  · rename_i hnil
    rw [hnil]
    rfl
  · rfl

theorem canonicalChars_ofParts {parts : List (List Char)} (h : ∀ part ∈ parts, Normal part) :
    canonicalChars (ofParts parts) = ofParts parts := by
  have hresolve := resolveParts_splitOn_ofParts h []
  rw [List.append_nil, List.append_nil, resolveParts_of_normal h] at hresolve
  rw [canonicalChars, absolute_ofParts h, hresolve, ofParts]

theorem canonicalChars_canonicalChars (path : List Char) :
    canonicalChars (canonicalChars path) = canonicalChars path := by
  obtain ⟨parts, hparts, hpath⟩ := exists_canonicalChars_eq path
  rw [hpath, canonicalChars_ofParts hparts]

@[simp] theorem canonical_canonical (path : String) :
    canonical (canonical path) = canonical path := by
  rw [canonical, canonical, String.toList_ofList, canonicalChars_canonicalChars]

theorem eq_append_of_dropBeginning? {beginning cs rest : List Char}
    (h : dropBeginning? beginning cs = some rest) : cs = beginning ++ rest := by
  induction beginning generalizing cs with
  | nil => exact Option.some.inj h
  | cons p ps ih =>
    cases cs with
    | nil => cases h
    | cons c cs =>
      rw [dropBeginning?] at h
      split at h
      · rename_i hpc
        rw [hpc, ih h]
        rfl
      · cases h

theorem head?_ne_of_ofParts_eq {parts : List (List Char)} {rest : List Char}
    (h : ∀ part ∈ parts, Normal part) (hrest : ofParts parts = projectFolder.toList ++ rest) :
    rest.head? ≠ some '/' := by
  intro hhead
  obtain ⟨tail, rfl⟩ := List.head?_eq_some_iff.1 hhead
  have hsplit := splitOn_ofParts h
  have hfolder : projectFolder.toList ++ '/' :: tail =
      '/' :: ("project".toList ++ '/' :: '/' :: tail) := rfl
  rw [hrest, hfolder, List.splitOn_cons_eq_if_modifyHead, if_pos (by simp),
    List.splitOn_append_cons_self_of_not_mem (by decide), List.splitOn_cons_eq_if_modifyHead,
    if_pos (by simp)] at hsplit
  split at hsplit
  · simp at hsplit
  · have hempty : [] ∈ parts := by
      rw [← (List.cons.inj hsplit).2]
      simp
    exact (h [] hempty).ne_nil rfl

/-- The shortened name of a canonical path leads back to it. -/
@[simp] theorem canonical_displayName_canonical (path : String) :
    canonical (displayName (canonical path)) = canonical path := by
  unfold displayName
  split
  · rename_i rest hdrop
    obtain ⟨parts, hparts, hpath⟩ := exists_canonicalChars_eq path.toList
    have hcanonical : (canonical path).toList = ofParts parts := by
      rw [canonical, String.toList_ofList, hpath]
    have hrest := eq_append_of_dropBeginning? hdrop
    rw [hcanonical] at hrest
    have hbackslash : '\\' ∉ rest := fun h ↦
      not_mem_ofParts hparts (hrest ▸ List.mem_append_right _ h)
    -- The shortened name is relative, so the project folder is put before it again.
    have habsolute : absolute rest = ofParts parts := by
      rw [absolute, forwardSlashes_of_not_mem hbackslash, hrest]
      exact if_neg (head?_ne_of_ofParts_eq hparts hrest)
    have hsame : canonicalChars rest = canonicalChars (ofParts parts) := by
      rw [canonicalChars, canonicalChars, habsolute, absolute_ofParts hparts]
    rw [canonical, String.toList_ofList, hsame, canonicalChars_ofParts hparts, ← hcanonical,
      String.ofList_toList]
  · exact canonical_canonical path

theorem canonical_eq_of_forwardSlashes_eq {path other : String}
    (h : forwardSlashes path.toList = forwardSlashes other.toList) :
    canonical path = canonical other := by
  rw [canonical, canonicalChars, absolute, h]
  rfl

theorem canonical_ofList_forwardSlashes (path : String) :
    canonical (String.ofList (forwardSlashes path.toList)) = canonical path := by
  refine canonical_eq_of_forwardSlashes_eq ?_
  rw [String.toList_ofList, forwardSlashes_of_not_mem (not_mem_forwardSlashes _)]

structure OfProject (path : String) : Prop where
  spelled : isLibrary path = false
  leads : isLibrary (canonical path) = false

theorem isLibrary_ofList_forwardSlashes (path : String) :
    isLibrary (String.ofList (forwardSlashes path.toList)) = isLibrary path := by
  rw [isLibrary, isLibrary, String.toList_ofList,
    forwardSlashes_of_not_mem (not_mem_forwardSlashes _)]

theorem isLibrary_eq_false_of_head? {path : String} (hbackslash : '\\' ∉ path.toList)
    (hhead : path.toList.head? ≠ some '/') : isLibrary path = false := by
  rw [isLibrary, forwardSlashes_of_not_mem hbackslash]
  cases hpath : path.toList with
  | nil => rfl
  | cons c cs =>
    have hc : ¬ '/' = c := fun h ↦ hhead (by rw [hpath, ← h]; rfl)
    simp [libraryFolder, List.isPrefixOf, hc]

/-- The shortened name of a canonical path of the project is not spelled like a library path. -/
theorem ofProject_displayName_canonical {path : String} (h : isLibrary (canonical path) = false) :
    OfProject (displayName (canonical path)) := by
  refine ⟨?_, by rw [canonical_displayName_canonical]; exact h⟩
  unfold displayName
  split
  · rename_i rest hdrop
    obtain ⟨parts, hparts, hpath⟩ := exists_canonicalChars_eq path.toList
    have hrest := eq_append_of_dropBeginning? hdrop
    rw [VirtualPath.canonical, String.toList_ofList, hpath] at hrest
    refine isLibrary_eq_false_of_head? ?_ ?_
    · rw [String.toList_ofList]
      exact fun hmem ↦ not_mem_ofParts hparts (hrest ▸ List.mem_append_right _ hmem)
    · rw [String.toList_ofList]
      exact head?_ne_of_ofParts_eq hparts hrest
  · exact h

end VirtualPath

/-- Paths that share a handle are spellings of one canonical path. -/
theorem Store.canonical_handleKey (path : String) :
    VirtualPath.canonical (handleKey path) = VirtualPath.canonical path := by
  unfold handleKey
  split
  · exact VirtualPath.canonical_ofList_forwardSlashes path
  · exact VirtualPath.canonical_canonical path

namespace Store

open VirtualPath

theorem isLibrary_handleKey_of_isLibrary {path : String} (h : isLibrary path = true) :
    isLibrary (handleKey path) = true := by
  rw [handleKey, if_pos h, isLibrary_ofList_forwardSlashes, h]

/-- Outside the library handles are kept by canonical path. -/
theorem handleKey_eq_iff {path key : String} (hkey : isLibrary key = false) :
    handleKey path = key ↔ isLibrary path = false ∧ canonical path = key := by
  cases hpath : isLibrary path with
  | true =>
    have hne : handleKey path ≠ key := by
      rintro rfl
      rw [isLibrary_handleKey_of_isLibrary hpath] at hkey
      cases hkey
    simp [hne]
  | false => simp [handleKey, hpath]

theorem handleKey_of_ofProject {path : String} (h : OfProject path) :
    handleKey path = canonical path :=
  (handleKey_eq_iff h.leads).2 ⟨h.spelled, rfl⟩

end Store

end VersionSweep
