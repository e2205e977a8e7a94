import VersionSweep.Proofs.Project.CanonicalPath

/-!
# Paths put together

A path is worked off part by part, so what has been worked off of its beginning can stand for the
beginning itself.  That is why a path may be read from the canonical form of its folder as well as
from the folder as it is spelled.
-/

namespace VersionSweep.VirtualPath

def IsCanonical (path : String) : Prop :=
  ∃ parts, (∀ part ∈ parts, Normal part) ∧ path.toList = ofParts parts

theorem isCanonical_canonical (path : String) : IsCanonical (canonical path) := by
  obtain ⟨parts, hparts, hpath⟩ := exists_canonicalChars_eq path.toList
  exact ⟨parts, hparts, by rw [canonical, String.toList_ofList, hpath]⟩

theorem canonical_eq_self_iff {path : String} : canonical path = path ↔ IsCanonical path := by
  constructor
  · intro h
    rw [← h]
    exact isCanonical_canonical path
  · rintro ⟨parts, hparts, hpath⟩
    rw [canonical, hpath, canonicalChars_ofParts hparts, ← hpath, String.ofList_toList]

theorem dropBeginning?_append (beginning rest : List Char) :
    dropBeginning? beginning (beginning ++ rest) = some rest := by
  induction beginning with
  | nil => rfl
  | cons c cs ih => rw [List.cons_append, dropBeginning?, if_pos rfl, ih]

/-- A name in the project folder is displayed as it stands behind the folder. -/
theorem displayName_append (rest : String) : displayName (projectFolder ++ rest) = rest := by
  simp only [displayName, String.toList_append, dropBeginning?_append, String.ofList_toList]

theorem absolute_append_slash {folder : List Char} (h : folder ≠ []) (path : List Char) :
    absolute (folder ++ '/' :: path) = absolute folder ++ '/' :: forwardSlashes path := by
  have hslashes : forwardSlashes (folder ++ '/' :: path) =
      forwardSlashes folder ++ '/' :: forwardSlashes path := forwardSlashes_append _ _
  have hhead : (forwardSlashes folder ++ '/' :: forwardSlashes path).head? =
      (forwardSlashes folder).head? := by
    rw [List.head?_append, Option.or_of_isSome]
    simpa [forwardSlashes] using h
  rw [absolute, absolute, hslashes, hhead]
  split
  · rfl
  · rw [List.append_assoc]

theorem resolveParts_resolveParts_append {parts : List (List Char)}
    (h : ∀ part ∈ parts, '/' ∉ part ∧ '\\' ∉ part) (more : List (List Char)) :
    resolveParts (resolveParts parts ++ more) = resolveParts (parts ++ more) := by
  have hheld := foldl_pushPart_of_normal (normal_resolveParts h) []
  rw [resolveParts, List.foldl_append, hheld, resolveParts, List.reverse_reverse, List.append_nil,
    resolveParts, List.foldl_append]

theorem canonicalChars_append_slash {folder : List Char} (h : folder ≠ []) (path : List Char) :
    canonicalChars (folder ++ '/' :: path) =
      ofParts (resolveParts
        ((absolute folder).splitOn '/' ++ (forwardSlashes path).splitOn '/')) := by
  rw [canonicalChars, absolute_append_slash h, List.splitOn_append_cons_self, ofParts]

/-- A path may be read from the canonical form of its folder. -/
theorem canonicalChars_canonicalChars_append {folder : List Char} (h : folder ≠ [])
    (path : List Char) :
    canonicalChars (canonicalChars folder ++ '/' :: path) =
      canonicalChars (folder ++ '/' :: path) := by
  have hslashes := slashes_of_mem_splitOn_absolute folder
  have hparts := normal_resolveParts hslashes
  have hfolder : canonicalChars folder =
      ofParts (resolveParts ((absolute folder).splitOn '/')) := rfl
  have hroot : canonicalChars folder ≠ [] := List.cons_ne_nil _ _
  rw [canonicalChars_append_slash h, canonicalChars_append_slash hroot, hfolder,
    absolute_ofParts hparts, resolveParts_splitOn_ofParts hparts,
    resolveParts_resolveParts_append hslashes]

theorem canonical_canonical_append {folder : String} (h : folder ≠ "") (path : String) :
    canonical (canonical folder ++ "/" ++ path) = canonical (folder ++ "/" ++ path) := by
  have hchars (before : String) :
      (before ++ "/" ++ path).toList = before.toList ++ '/' :: path.toList := by simp
  have hne : folder.toList ≠ [] := by simpa using h
  simp only [canonical, hchars, String.toList_ofList, canonicalChars_canonicalChars_append hne]

/-- The canonical form of any path goes from the root through normal parts, and of the paths that do
so each one is its own canonical form.  A path that is read from a folder may be read from the
folder's canonical form, and what a canonical path is displayed as leads back to it. -/
theorem canonical_normal_and_joined :
    (∀ path, IsCanonical (canonical path)) ∧
    (∀ path, canonical (canonical path) = canonical path) ∧
    (∀ path, canonical path = path ↔ IsCanonical path) ∧
    (∀ folder path : String, folder ≠ "" →
      canonical (folder ++ "/" ++ path) = canonical (canonical folder ++ "/" ++ path)) ∧
    ∀ path, canonical (displayName (canonical path)) = canonical path ∧
      ∀ rest, canonical path = projectFolder ++ rest → displayName (canonical path) = rest := by
  refine ⟨isCanonical_canonical, canonical_canonical, fun path ↦ canonical_eq_self_iff,
    fun folder path h ↦ (canonical_canonical_append h path).symm, fun path ↦
    ⟨canonical_displayName_canonical path, ?_⟩⟩
  rintro rest hrest
  rw [hrest, displayName_append]

theorem canonical_normal_and_joined_mixed_slashes :
    "src\\lib\\.." ≠ "" ∧
      canonical ("src\\lib\\.." ++ "/" ++ "../..\\../x//a.ts") = "/x/a.ts" ∧
      canonical (canonical "src\\lib\\.." ++ "/" ++ "../..\\../x//a.ts") = "/x/a.ts" := by
  have hne : "src\\lib\\.." ≠ "" := by decide
  have hjoined : canonical ("src\\lib\\.." ++ "/" ++ "../..\\../x//a.ts") = "/x/a.ts" := by
    decide +kernel
  obtain ⟨-, -, -, hfolder, -⟩ := canonical_normal_and_joined
  exact ⟨hne, hjoined, (hfolder _ _ hne).symm.trans hjoined⟩

/-- The empty path is the project folder, but a slash behind it leads to the root. -/
example : canonical ("" ++ "/" ++ "a.ts") = "/a.ts" ∧
    canonical (canonical "" ++ "/" ++ "a.ts") = "/project/a.ts" := by decide +kernel

end VersionSweep.VirtualPath
