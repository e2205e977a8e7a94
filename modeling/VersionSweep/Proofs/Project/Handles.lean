import VersionSweep.Proofs.Project.History

/-!
# Handles of project files

Outside the library a file has one handle from its first request on, whatever the spellings and
language levels of the others, until a text is added at its canonical path.  The next request then
makes a new handle, which is no one that was ever handed out.  `answers_ofHistory` reads all answers
of a store for such a path off what has been done to the store.
-/

namespace VersionSweep.Store

variable {store next : Store} {services : Services} {library : Library} {key : String}

/-! ## The kept handle and the history -/

/-- The first request after one more operation: none yet after an addition, the one there was if
there was one, else the operation itself. -/
theorem firstRequest?_concat (history : List Operation) (operation : Operation) (key : String) :
    firstRequest? (history ++ [operation]) key =
      if operation.addsTo key then none
      else (firstRequest? history key).or (operation.requested? key) := by
  rw [firstRequest?, List.rtakeWhile_concat]
  by_cases h : operation.addsTo key = true
  · simp [h]
  · cases hrequested : operation.requested? key <;>
      simp [h, hrequested, firstRequest?, List.head?_append]

/-- Whether the handle that a store keeps at a canonical path was made from the text that it holds,
for the given request, none being kept before there is a request. -/
def KeepsFor (store : Store) (key : String) (request? : Option (String × Int)) : Prop :=
  (store.handles.get? key).map Issued.handle =
    (store.files.get? key).bind fun text ↦
      request?.map fun request ↦ store.services.handle request.1 text request.2

theorem KeepsFor.addFile {request? : Option (String × Int)} (h : store.KeepsFor key request?)
    (path text : String) :
    (store.addFile path text).KeepsFor key
      (if VirtualPath.canonical path = key then none else request?) := by
  unfold KeepsFor at h ⊢
  simp only [Store.addFile, OrderedMap.get?_erase, OrderedMap.get?_insert]
  by_cases hkey : VirtualPath.canonical path = key
  · simp [hkey]
  · simpa [hkey] using h

theorem requested?_request (hkey : VirtualPath.isLibrary key = false) (path : String)
    (target : Int) :
    Operation.requested? key (.request path target) =
      if handleKey path = key then some (path, target) else none := by
  simp only [Operation.requested?, handleKey_eq_iff hkey]

theorem KeepsFor.request (hkey : VirtualPath.isLibrary key = false)
    {request? : Option (String × Int)} (h : store.KeepsFor key request?) (path : String)
    (target : Int) :
    (store.perform (.request path target)).KeepsFor key
      (request?.or (Operation.requested? key (.request path target))) := by
  rw [requested?_request hkey]
  by_cases hpath : handleKey path = key
  · obtain ⟨hspelled, hcanonical⟩ := (handleKey_eq_iff hkey).1 hpath
    have htext := store.textOf_of_isLibrary_eq_false hspelled
    rw [hcanonical] at htext
    rcases store.perform_request_cases path target with ⟨hsame, hreason⟩ | ⟨text, hnone, hok, hnew⟩
    · rw [hsame]
      cases request? with
      | some request => simpa using h
      | none =>
        -- Nothing is kept before the first request, so the path has no text.
        have hnone : store.handles.get? key = none := by simpa [KeepsFor] using h
        obtain ⟨issued, hkept⟩ | ⟨failure, hfailure⟩ := hreason
        · rw [hpath, hnone] at hkept
          cases hkept
        · have hfile : store.files.get? key = none := by
            rw [hfailure] at htext
            cases hget : store.files.get? key with
            | none => rfl
            | some text => simp [hget] at htext
          simp [KeepsFor, hnone, hfile]
    · have hfile : store.files.get? key = some text := by
        rw [hok] at htext
        cases hget : store.files.get? key with
        | none => simp [hget] at htext
        | some other => simpa [hget, eq_comm] using htext
      have hfirst : request? = none := by
        rw [hpath] at hnone
        cases request? with
        | none => rfl
        | some request => simp [KeepsFor, hnone, hfile] at h
      rw [hnew]
      simp [KeepsFor, OrderedMap.get?_insert, hpath, hfile, hfirst]
  · rcases store.perform_request_cases path target with ⟨hsame, -⟩ | ⟨text, -, -, hnew⟩
    · simpa [hsame, hpath] using h
    · simpa [hnew, hpath, KeepsFor, OrderedMap.get?_insert] using h

theorem KeepsFor.perform (hkey : VirtualPath.isLibrary key = false)
    {request? : Option (String × Int)} (h : store.KeepsFor key request?) (operation : Operation) :
    (store.perform operation).KeepsFor key
      (if operation.addsTo key then none else request?.or (operation.requested? key)) := by
  cases operation with
  | add path text =>
    simpa [Operation.addsTo, Operation.added?, Operation.requested?, Store.perform]
      using h.addFile path text
  | request path target =>
    simpa [Operation.addsTo, Operation.added?] using h.request hkey path target
  | put path text =>
    have hput : (store.putOutput path text).KeepsFor key request? := h
    simpa [Operation.addsTo, Operation.added?, Operation.requested?, Store.perform] using hput
  | _ => simpa [Operation.addsTo, Operation.added?, Operation.requested?, Store.perform] using h

/-- The handle that is kept at a canonical path outside the library was made from the text there,
for the first request since the text was added. -/
theorem keepsFor_ofHistory (hkey : VirtualPath.isLibrary key = false) (history : List Operation) :
    (ofHistory services library history).KeepsFor key (firstRequest? history key) := by
  induction history using List.reverseRecOn with
  | nil => rfl
  | append_singleton history operation ih =>
    rw [ofHistory_concat, firstRequest?_concat]
    exact ih.perform hkey operation

/-! ## One handle until the next addition -/

theorem get?_handles_perform {issued : Issued} (h : store.handles.get? key = some issued)
    {operation : Operation} (hkeep : operation.addsTo key = false) :
    (store.perform operation).handles.get? key = some issued := by
  cases operation with
  | add path text =>
    have hne : ¬ VirtualPath.canonical path = key := by
      simpa [Operation.addsTo, Operation.added?] using hkeep
    rw [perform, addFile, OrderedMap.get?_erase, if_neg hne, h]
  | request path target =>
    rcases store.perform_request_cases path target with ⟨hsame, -⟩ | ⟨text, hnone, -, hnew⟩
    · rw [hsame, h]
    · have hne : ¬ handleKey path = key := by
        rintro rfl
        rw [h] at hnone
        cases hnone
      rw [hnew, OrderedMap.get?_insert, if_neg hne, h]
  | _ => exact h

/-- A kept handle stays until a text is added at its path. -/
theorem get?_handles_performAll {issued : Issued} (h : store.handles.get? key = some issued)
    {operations : List Operation} (hkeep : ∀ operation ∈ operations, operation.addsTo key = false) :
    (store.performAll operations).handles.get? key = some issued :=
  List.foldlRecOn (motive := fun reached : Store ↦ reached.handles.get? key = some issued)
    operations _ h fun _ hkept operation hmem ↦ get?_handles_perform hkept (hkeep operation hmem)

theorem get?_handles_of_sourceHandle {path : String} {target : Int} {issued : Issued}
    (h : store.sourceHandle path target = .ok (issued, next)) :
    next.handles.get? (handleKey path) = some issued := by
  rcases sourceHandle_cases h with ⟨hkept, rfl⟩ | ⟨text, -, -, -, rfl⟩
  · exact hkept
  · rw [OrderedMap.get?_insert, if_pos rfl]

theorem sourceHandle_of_get?_handles {path : String} {issued : Issued}
    (h : store.handles.get? (handleKey path) = some issued) (target : Int) :
    store.sourceHandle path target = .ok (issued, store) := by
  simp only [sourceHandle, h]

/-! ## A new handle after an addition -/

/-- A handle is kept after an operation only if nothing was added at its path.  It was kept before,
or is made by the operation. -/
theorem kept_or_made_of_perform {operation : Operation} {issued : Issued}
    (h : (store.perform operation).handles.get? key = some issued) :
    operation.addsTo key = false ∧
    (store.handles.get? key = some issued ∨
      ∃ path target text, handleKey path = key ∧ store.textOf path = .ok text ∧
        issued = ⟨store.issued, store.services.handle path text target⟩ ∧
        store.issued < (store.perform operation).issued) := by
  cases operation with
  | add path text =>
    rw [perform, addFile, OrderedMap.get?_erase] at h
    split at h
    · cases h
    · rename_i hne
      exact ⟨by simpa [Operation.addsTo, Operation.added?] using hne, .inl h⟩
  | request path target =>
    refine ⟨rfl, ?_⟩
    rcases store.perform_request_cases path target with ⟨hsame, -⟩ | ⟨text, -, htext, hnew⟩
    · exact .inl (hsame ▸ h)
    · rw [hnew, OrderedMap.get?_insert] at h
      split at h
      · rename_i hkey
        refine .inr ⟨path, target, text, hkey, htext, (Option.some.inj h).symm, ?_⟩
        rw [hnew]
        exact Nat.lt_succ_self _
      · exact .inl h
  | _ => exact ⟨rfl, .inl h⟩

theorem le_issued_perform (store : Store) (operation : Operation) :
    store.issued ≤ (store.perform operation).issued := by
  cases operation with
  | request path target =>
    rcases store.perform_request_cases path target with ⟨h, -⟩ | ⟨text, -, -, h⟩ <;> rw [h]
    exact Nat.le_succ _
  | _ => exact le_rfl

def Numbered (store : Store) : Prop :=
  ∀ key issued, store.handles.get? key = some issued → issued.serial < store.issued

theorem Numbered.perform (h : store.Numbered) (operation : Operation) :
    (store.perform operation).Numbered := by
  intro key issued hget
  rcases (kept_or_made_of_perform hget).2 with hkept | ⟨path, target, text, -, -, rfl, hlt⟩
  · exact (h key issued hkept).trans_le (store.le_issued_perform operation)
  · exact hlt

theorem numbered_ofHistory (history : List Operation) :
    (ofHistory services library history).Numbered := by
  refine List.foldlRecOn (motive := Numbered) history _ ?_ fun _ h operation _ ↦ h.perform operation
  intro key issued hget
  cases hget

/-- Whether the handle kept at a path, now or later, has a number from `bound` on. -/
structure NewFrom (bound : ℕ) (key : String) (store : Store) : Prop where
  kept : ∀ issued, store.handles.get? key = some issued → bound ≤ issued.serial
  issued : bound ≤ store.issued

theorem NewFrom.perform {bound : ℕ} (h : store.NewFrom bound key) (operation : Operation) :
    (store.perform operation).NewFrom bound key := by
  refine ⟨fun issued hget ↦ ?_, h.issued.trans (store.le_issued_perform operation)⟩
  rcases (kept_or_made_of_perform hget).2 with hkept | ⟨path, target, text, -, -, rfl, -⟩
  · exact h.kept issued hkept
  · exact h.issued

theorem newFrom_perform_of_addsTo {bound : ℕ} (hbound : bound ≤ store.issued)
    {operation : Operation} (hadds : operation.addsTo key = true) :
    (store.perform operation).NewFrom bound key := by
  refine ⟨fun issued hget ↦ ?_, hbound.trans (store.le_issued_perform operation)⟩
  have hkeep := (kept_or_made_of_perform hget).1
  rw [hadds] at hkeep
  cases hkeep

/-- After an addition at a path the path's handle is none that was given out before. -/
theorem newFrom_performAll {operations : List Operation}
    (h : ∃ operation ∈ operations, operation.addsTo key = true) :
    (store.performAll operations).NewFrom store.issued key := by
  obtain ⟨operation, hmem, hadds⟩ := h
  obtain ⟨before, after, rfl⟩ := List.append_of_mem hmem
  have hbefore : store.issued ≤ (store.performAll before).issued :=
    List.foldlRecOn (motive := fun reached : Store ↦ store.issued ≤ reached.issued) before _ le_rfl
      fun reached h operation _ ↦ h.trans (reached.le_issued_perform operation)
  rw [performAll, List.foldl_append, List.foldl_cons]
  exact List.foldlRecOn (motive := NewFrom store.issued key) after _
    (newFrom_perform_of_addsTo hbefore hadds) fun _ h operation _ ↦ h.perform operation

/-! ## What a store answers -/

theorem eq_perform_of_sourceHandle {path : String} {target : Int} {issued : Issued}
    (h : store.sourceHandle path target = .ok (issued, next)) :
    next = store.perform (.request path target) := by
  simp only [perform, h]

theorem sourceHandle_of_keepsFor {path : String} (hpath : VirtualPath.OfProject path)
    {request? : Option (String × Int)}
    (h : store.KeepsFor (VirtualPath.canonical path) request?) (target : Int) :
    match store.files.get? (VirtualPath.canonical path) with
    | none => store.sourceHandle path target =
        .error (.missingVirtualFile (VirtualPath.canonical path))
    | some text => ∃ issued next, store.sourceHandle path target = .ok (issued, next) ∧
        issued.handle = store.services.handle (request?.getD (path, target)).1 text
          (request?.getD (path, target)).2 := by
  have htext := store.textOf_of_isLibrary_eq_false hpath.spelled
  unfold KeepsFor at h
  cases hfile : store.files.get? (VirtualPath.canonical path) with
  | none =>
    have hnone : store.handles.get? (VirtualPath.canonical path) = none := by simpa [hfile] using h
    simp [sourceHandle, handleKey_of_ofProject hpath, hnone, htext, hfile]
  | some text =>
    cases request? with
    | none =>
      have hnone : store.handles.get? (VirtualPath.canonical path) = none := by simpa using h
      simp [sourceHandle, handleKey_of_ofProject hpath, hnone, htext, hfile]
    | some request =>
      obtain ⟨issued, hkept, hhandle⟩ : ∃ issued,
          store.handles.get? (VirtualPath.canonical path) = some issued ∧
            issued.handle = store.services.handle request.1 text request.2 := by
        simpa [hfile] using h
      exact ⟨issued, store, sourceHandle_of_get?_handles
        (by rw [handleKey_of_ofProject hpath, hkept]) target, hhandle⟩

/-- Writing changes nothing but the outputs. -/
theorem perform_outputs (store : Store) (outputs : OrderedMap String) {operation : Operation}
    (h : operation.written? = none) :
    ({ store with outputs } : Store).perform operation =
      { store.perform operation with outputs } := by
  cases operation with
  | request path target =>
    have htext : ({ store with outputs } : Store).textOf path = store.textOf path := rfl
    simp only [perform, sourceHandle, htext]
    cases store.handles.get? (handleKey path) with
    | some issued => rfl
    | none => cases store.textOf path <;> rfl
  | put path text => cases h
  | _ => rfl

theorem perform_of_written? (store : Store) {operation : Operation}
    (h : operation.written?.isSome) :
    store.perform operation = { store with outputs := (store.perform operation).outputs } := by
  cases operation with
  | put path text => rfl
  | _ => cases h

/-- A store to which nothing was ever written differs in its outputs alone. -/
theorem ofHistory_filter_written? (history : List Operation) :
    ofHistory services library (history.filter fun operation ↦ operation.written?.isNone) =
      { ofHistory services library history with outputs := .empty } := by
  induction history using List.reverseRecOn with
  | nil => rfl
  | append_singleton history operation ih =>
    rw [List.filter_append, ofHistory_concat]
    cases hwritten : operation.written? with
    | none =>
      rw [List.filter_cons_of_pos (by simp [hwritten]), List.filter_nil, ofHistory_concat, ih,
        perform_outputs _ _ hwritten]
    | some pair =>
      rw [List.filter_cons_of_neg (by simp [hwritten]), List.filter_nil, List.append_nil, ih,
        perform_of_written? _ (by simp [hwritten])]

/-- What a store answers for a path: the text that was added last at the canonical path, and a
handle that was made from this text for the first request since. -/
structure Answers (services : Services) (history : List Operation) (path : String) (store : Store) :
    Prop where
  text : store.textOf path =
    match lastText? history (VirtualPath.canonical path) with
    | some text => .ok text
    | none => .error (.missingVirtualFile (VirtualPath.canonical path))
  fileExists : store.fileExists path = (lastText? history (VirtualPath.canonical path)).isSome
  handle : ∀ target,
    match lastText? history (VirtualPath.canonical path) with
    | none => store.sourceHandle path target =
        .error (.missingVirtualFile (VirtualPath.canonical path))
    | some text => ∃ issued next, store.sourceHandle path target = .ok (issued, next) ∧
        let first := (firstRequest? history (VirtualPath.canonical path)).getD (path, target)
        issued.handle = services.handle first.1 text first.2
  /-- Until the next addition all spellings of the canonical path have the same handle. -/
  same : ∀ spelling target issued next, VirtualPath.isLibrary spelling = false →
    VirtualPath.canonical spelling = VirtualPath.canonical path →
    store.sourceHandle spelling target = .ok (issued, next) →
    ∀ later, (∀ operation ∈ later, operation.addsTo (VirtualPath.canonical path) = false) →
      ∀ target', (next.performAll later).sourceHandle path target' =
        .ok (issued, next.performAll later)
  /-- After an addition the handle is none that was given out before, for whatever path. -/
  fresh : ∀ other target issued next, store.sourceHandle other target = .ok (issued, next) →
    ∀ later, (∃ operation ∈ later, operation.addsTo (VirtualPath.canonical path) = true) →
      ∀ target' issued' next',
        (next.performAll later).sourceHandle path target' = .ok (issued', next') →
        issued'.serial ≠ issued.serial

/-- What a store lists: added and written paths as they came first, outputs with their last text. -/
structure Lists (history : List Operation) (store : Store) : Prop where
  files : store.files.keys = ((history.filterMap Operation.added?).map Prod.fst).eraseDups
  outputs : store.outputs.keys = ((history.filterMap Operation.written?).map Prod.fst).eraseDups
  texts : ∀ path, store.outputs.get? path =
    (history.filterMap Operation.written?).reverse.lookup path

theorem lists_ofHistory (history : List Operation) :
    (ofHistory services library history).Lists history where
  files := by rw [files_ofHistory, OrderedMap.keys_ofList]
  outputs := by rw [outputs_ofHistory, OrderedMap.keys_ofList]
  texts path := by rw [outputs_ofHistory, OrderedMap.get?_ofList]

/-- Whatever has been done to a store, it answers by its history for a path outside the library, and
lists what was added and written.  Writing affects nothing but the outputs. -/
theorem answers_ofHistory (services : Services) (library : Library) (history : List Operation)
    {path : String} (h : VirtualPath.OfProject path) :
    (ofHistory services library history).Answers services history path ∧
    (ofHistory services library history).Lists history ∧
    ofHistory services library (history.filter fun operation ↦ operation.written?.isNone) =
      { ofHistory services library history with outputs := .empty } := by
  have hfile : (ofHistory services library history).files.get? (VirtualPath.canonical path) =
      lastText? history (VirtualPath.canonical path) := get?_files_ofHistory history _
  have hkey : handleKey path = VirtualPath.canonical path := handleKey_of_ofProject h
  refine ⟨⟨?_, ?_, ?_, ?_, ?_⟩, lists_ofHistory history, ofHistory_filter_written? history⟩
  · exact hfile ▸ textOf_of_isLibrary_eq_false h.spelled
  · rw [fileExists, h.spelled, Bool.false_or, OrderedMap.contains, hfile]
  · intro target
    have hkeeps : (ofHistory services library history).KeepsFor (VirtualPath.canonical path)
        (firstRequest? history (VirtualPath.canonical path)) := keepsFor_ofHistory h.leads history
    have hhandle := sourceHandle_of_keepsFor h hkeeps target
    rwa [hfile, services_ofHistory] at hhandle
  · intro spelling target issued next hspelled hcanonical hissued later hkeep target'
    have hspelling : handleKey spelling = VirtualPath.canonical path :=
      (handleKey_eq_iff h.leads).2 ⟨hspelled, hcanonical⟩
    have hkept : next.handles.get? (VirtualPath.canonical path) = some issued :=
      hspelling ▸ get?_handles_of_sourceHandle hissued
    refine sourceHandle_of_get?_handles ?_ target'
    rw [hkey]
    exact get?_handles_performAll hkept hkeep
  · intro other target issued next hissued later hadds target' issued' next' hissued'
    have hnext : next = (ofHistory services library history).perform (.request other target) :=
      eq_perform_of_sourceHandle hissued
    have hnumbered : next.Numbered := hnext ▸ (numbered_ofHistory history).perform _
    have hlt : issued.serial < next.issued := hnumbered _ _ (get?_handles_of_sourceHandle hissued)
    have hnew := (next.newFrom_performAll hadds).perform (.request path target')
    rw [← eq_perform_of_sourceHandle hissued'] at hnew
    have hle := hnew.kept issued' (hkey ▸ get?_handles_of_sourceHandle hissued')
    omega

theorem answers_ofHistory_replaced_file :
    let history : List Operation :=
      [.add "a.ts" "one;", .request "./a.ts" 1, .put "a.ts" "none;", .add "/project/a.ts" "two;",
        .request "/libs/../project/a.ts" 0, .request "x/../a.ts" 2, .read "a.ts"]
    VirtualPath.OfProject ".\\a.ts" ∧
      (ofHistory .language .bundled history).textOf ".\\a.ts" = .ok "two;" ∧
      ∃ issued next,
        (ofHistory .language .bundled history).sourceHandle ".\\a.ts" 0 = .ok (issued, next) ∧
        issued.handle = .parsed (.parse "x/../a.ts" "two;" 2) := by
  intro history
  have hpath : VirtualPath.OfProject ".\\a.ts" := ⟨by decide, by decide⟩
  obtain ⟨hanswers, -, -⟩ := answers_ofHistory .language .bundled history hpath
  exact ⟨hpath, hanswers.text, hanswers.handle 0⟩

end VersionSweep.Store
