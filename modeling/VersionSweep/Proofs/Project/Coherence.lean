import VersionSweep.Proofs.Project.Handles

/-!
# Handles and texts

A handle that a store gives out holds the text that the store reads under the handle's own name.
That is also the text of the requested path, as long as both spellings are library paths or none is.
If not they share their handle but are read from different places, so the handle may hold another
text than the path.
-/

namespace VersionSweep

namespace VirtualPath

theorem baseName_ofList_forwardSlashes (path : String) :
    baseName (String.ofList (forwardSlashes path.toList)) = baseName path := by
  -- Both slashes end the name, so it holds nothing that turning them would change.
  have hstop : (fun c ↦ c ≠ '/' && c ≠ '\\') ∘ (fun c : Char ↦ if c = '\\' then '/' else c) =
      fun c ↦ c ≠ '/' && c ≠ '\\' := by
    funext c
    by_cases h : c = '\\' <;> simp [h]
  have hsame (cs : List Char) :
      forwardSlashes (cs.takeWhile fun c ↦ c ≠ '/' && c ≠ '\\') =
        cs.takeWhile fun c ↦ c ≠ '/' && c ≠ '\\' := by
    refine forwardSlashes_of_not_mem fun hmem ↦ ?_
    simpa using List.mem_takeWhile_imp hmem
  have hname := hsame path.toList.reverse
  rw [forwardSlashes] at hname
  rw [baseName, baseName, String.toList_ofList, forwardSlashes, ← List.map_reverse,
    List.takeWhile_map, hstop, hname]

end VirtualPath

namespace Store

open VirtualPath

variable {store next : Store} {services : Services} {library : Library}

/-- Whether each handle that is kept is kept under the key of its name, and holds the text that the
store reads under its name. -/
def Coherent (store : Store) : Prop :=
  ∀ key issued, store.handles.get? key = some issued →
    handleKey issued.handle.name = key ∧
      store.textOf issued.handle.name = .ok issued.handle.text

theorem textOf_perform {operation : Operation} {path : String}
    (h : operation.addsTo (handleKey path) = false) :
    (store.perform operation).textOf path = store.textOf path := by
  cases hpath : isLibrary path with
  | true => simp only [textOf, hpath, readLibrary, library_perform, if_true]
  | false =>
    rw [handleKey, hpath] at h
    rw [textOf_of_isLibrary_eq_false hpath, textOf_of_isLibrary_eq_false hpath, files_perform]
    cases hadded : operation.added? with
    | none => rfl
    | some pair =>
      have hne : ¬ pair.1 = canonical path := by
        simpa [Operation.addsTo, hadded] using h
      simp only [OrderedMap.get?_insert, if_neg hne]

theorem Coherent.perform (h : store.Coherent) (operation : Operation) :
    (store.perform operation).Coherent := by
  intro key issued hget
  obtain ⟨hkeep, hkept | ⟨path, target, text, rfl, htext, rfl, -⟩⟩ := kept_or_made_of_perform hget
  · obtain ⟨rfl, htext⟩ := h key issued hkept
    exact ⟨rfl, (textOf_perform hkeep).trans htext⟩
  · simp only [Services.name_handle, Services.text_handle, true_and]
    rw [textOf_perform hkeep, htext]

theorem coherent_ofHistory (history : List Operation) :
    (ofHistory services library history).Coherent := by
  refine List.foldlRecOn (motive := Coherent) history _ ?_ fun _ h operation _ ↦ h.perform operation
  intro key issued hget
  cases hget

/-- What a path reads is settled by the key of its handle, and by whether it is a library path. -/
theorem textOf_eq_ok_iff {path text : String} :
    store.textOf path = .ok text ↔
      if isLibrary path then store.library.read (baseName (handleKey path)) = .ok text
      else store.files.get? (handleKey path) = some text := by
  cases hpath : isLibrary path with
  | true =>
    have hname : baseName (handleKey path) = baseName path := by
      rw [handleKey, if_pos hpath, baseName_ofList_forwardSlashes]
    rw [textOf, if_pos hpath, readLibrary, hname]
    cases store.library.read (baseName path) <;> simp
  | false =>
    have hkey : handleKey path = canonical path := by simp [handleKey, hpath]
    rw [textOf_of_isLibrary_eq_false hpath, hkey]
    cases store.files.get? (canonical path) <;> simp

/-- Of two kinds of spelling with one key, one is read from the library and one from the files. -/
theorem textOf_eq_iff_of_isLibrary_ne {name path text : String}
    (hkey : handleKey name = handleKey path) (hkind : isLibrary name ≠ isLibrary path)
    (hname : store.textOf name = .ok text) :
    store.textOf path = .ok text ↔
      ∃ text, store.files.get? (handleKey path) = some text ∧
        store.library.read (baseName (handleKey path)) = .ok text := by
  rw [textOf_eq_ok_iff, hkey] at hname
  rw [textOf_eq_ok_iff]
  cases hpath : isLibrary path with
  | true =>
    rw [hpath, ne_eq, Bool.not_eq_true] at hkind
    rw [hkind, if_neg (by decide)] at hname
    simp [hname]
  | false =>
    rw [hpath, ne_eq, Bool.not_eq_false] at hkind
    rw [hkind, if_pos rfl] at hname
    simp [hname, eq_comm]

/-- Only a path that leads into the library can share its handle with a spelling of the other
kind. -/
theorem isLibrary_eq_of_handleKey_eq {name path : String} (hkey : handleKey name = handleKey path)
    (hpath : isLibrary (canonical path) = false) : isLibrary name = isLibrary path := by
  cases hspelled : isLibrary path with
  | false =>
    rw [handleKey_of_ofProject ⟨hspelled, hpath⟩] at hkey
    exact ((handleKey_eq_iff hpath).1 hkey).1
  | true =>
    by_contra hname
    have hcanonical : handleKey name = canonical name := by simp [handleKey, hname]
    have hleads : canonical path = handleKey path := by
      rw [← canonical_handleKey path, ← hkey, hcanonical, canonical_canonical]
    rw [hleads, isLibrary_handleKey_of_isLibrary hspelled] at hpath
    cases hpath

/-- The handle for a path holds the text that is read under the handle's name.  It is the text that
is read for the path exactly if both spellings are library paths or none is, or if the library and
the files have the same text under the key of the handle.  So it is for each path that does not lead
into the library. -/
theorem textOf_eq_iff_of_sourceHandle (services : Services) (library : Library)
    (history : List Operation) {path : String} {target : Int} {issued : Issued}
    (h : (ofHistory services library history).sourceHandle path target = .ok (issued, next)) :
    let store := ofHistory services library history
    handleKey issued.handle.name = handleKey path ∧
    store.textOf issued.handle.name = .ok issued.handle.text ∧
    (store.textOf path = .ok issued.handle.text ↔
      isLibrary issued.handle.name = isLibrary path ∨
      ∃ text, store.files.get? (handleKey path) = some text ∧
        store.library.read (baseName (handleKey path)) = .ok text) ∧
    (isLibrary (canonical path) = false → store.textOf path = .ok issued.handle.text) := by
  intro store
  have hcoherent : next.Coherent :=
    eq_perform_of_sourceHandle h ▸ (coherent_ofHistory history).perform _
  obtain ⟨hkey, hname⟩ := hcoherent _ _ (get?_handles_of_sourceHandle h)
  rw [eq_perform_of_sourceHandle h, textOf_perform rfl] at hname
  have hsame (hkind : isLibrary issued.handle.name = isLibrary path) :
      store.textOf path = .ok issued.handle.text := by
    rw [textOf_eq_ok_iff, ← hkind, ← hkey, ← textOf_eq_ok_iff]
    exact hname
  refine ⟨hkey, hname, ?_, fun hpath ↦ hsame (isLibrary_eq_of_handleKey_eq hkey hpath)⟩
  by_cases hkind : isLibrary issued.handle.name = isLibrary path
  · exact iff_of_true (hsame hkind) (.inl hkind)
  · rw [textOf_eq_iff_of_isLibrary_ne hkey hkind hname, or_iff_right hkind]

theorem textOf_eq_iff_of_sourceHandle_same_text :
    let history : List Operation := [.add "..\\libs\\lib.d.ts" "declare var a: any;",
      .request "..\\libs\\lib.d.ts" 1]
    let store := ofHistory .language (.ofFiles "lib" [("lib.d.ts", "declare var a: any;")]) history
    ∃ issued next, store.sourceHandle "/libs/lib.d.ts" 0 = .ok (issued, next) ∧
      isLibrary issued.handle.name ≠ isLibrary "/libs/lib.d.ts" ∧
      store.textOf "/libs/lib.d.ts" = .ok issued.handle.text := by
  intro history store
  obtain ⟨-, -, hiff, -⟩ := textOf_eq_iff_of_sourceHandle .language
    (.ofFiles "lib" [("lib.d.ts", "declare var a: any;")]) history
    (show store.sourceHandle "/libs/lib.d.ts" 0 = .ok (_, _) from rfl)
  exact ⟨_, _, rfl, by decide, hiff.2 (.inr ⟨"declare var a: any;", rfl, rfl⟩)⟩

/-- A library path is served the text of a file that was added under the same canonical path. -/
theorem textOf_ne_of_added_library_name :
    let history : List Operation :=
      [.add "../libs/lib.d.ts" "let mine = 1;", .request "../libs/lib.d.ts" 0]
    let store := ofHistory .language (.ofFiles "lib" [("lib.d.ts", "declare const NaN: number;")])
      history
    ∃ issued next, store.sourceHandle "/libs/lib.d.ts" 0 = .ok (issued, next) ∧
      issued.handle.text = "let mine = 1;" ∧
      store.textOf "/libs/lib.d.ts" = .ok "declare const NaN: number;" ∧
      store.textOf "/libs/lib.d.ts" ≠ .ok issued.handle.text := by
  refine ⟨_, _, rfl, rfl, rfl, ?_⟩
  decide +kernel

end Store

end VersionSweep
