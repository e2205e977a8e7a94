import VersionSweep.Proofs.Project.BreadthFirst
import VersionSweep.Proofs.Project.Worklist

/-!
# How far loading has come

While the files of a program are loaded, the requests dealt with and those in the queue are together
the roots and all that the loaded files import; and the loaded files are the first mentions among
the requests dealt with.  A round keeps this, and so does a run.  It stops short only at a root that
is not there, what is imported having been found before it is requested.
-/

namespace VersionSweep

open VirtualPath

namespace Store

def statementsAt (store : Store) (key : String) : List Statement :=
  match store.files.get? key with
  | some text => (SourceFile.parse key text 0).statements
  | none => []

def importedBy (store : Store) (key : String) : List String :=
  (store.statementsAt key).filterMap (Loading.leadsTo? store key)

end Store

structure Request.Proper (request : Request) : Prop where
  leads : request.Leads
  project : OfProject request.name

theorem Request.Proper.isLibrary_key {request : Request} (h : request.Proper) :
    isLibrary request.key = false := by
  rw [h.leads]
  exact h.project.leads

theorem Request.Proper.handleKey_name {request : Request} (h : request.Proper) :
    Store.handleKey request.name = request.key := by
  rw [h.leads]
  exact Store.handleKey_of_ofProject h.project

structure Loaded.Read (target : Int) (texts : Store) (file : Loaded) : Prop where
  text : texts.files.get? file.key = some file.file.text
  parse : file.file = .parse file.file.name file.file.text target
  targets : file.targets = Loading.targets texts file.key file.file
  isLibrary : file.isLibrary = false

section Follows

variable {target : Int} {texts : Store} {file : Loaded}

theorem Loaded.Read.map_key_follows (h : file.Read target texts) :
    file.follows.map Request.key = texts.importedBy file.key := by
  have hstatements : texts.statementsAt file.key = file.file.statements := by
    rw [Store.statementsAt, h.text, h.parse]
    rfl
  rw [Store.importedBy, hstatements, ← Loading.map_snd_targets, ← h.targets, Loaded.follows,
    List.map_map]
  rfl

/-- What a file imports is requested by a name that leads to it, and is there. -/
theorem Loaded.Read.of_mem_follows (h : file.Read target texts) {request : Request}
    (hrequest : request ∈ file.follows) :
    request.Proper ∧ request.name = displayName request.key ∧
      texts.files.contains request.key = true := by
  obtain ⟨entry, hentry, rfl⟩ := List.mem_map.1 hrequest
  rw [h.targets] at hentry
  obtain ⟨hleads, hproject⟩ := Loading.leads_of_mem_targets hentry
  exact ⟨⟨hleads.symm, hproject⟩, rfl, (Loading.found_of_mem_targets hentry).2.2⟩

end Follows

namespace Loading

/-- What loading begins with: the library file, or nothing, and no handle for anything else. -/
structure Begun (texts : Store) (base : Loading) : Prop where
  same : base.store.SameTexts texts
  handles : ∀ key issued, base.store.handles.get? key = some issued →
    key ∈ base.loaded.map Loaded.key
  library : ∀ file ∈ base.loaded, file.isLibrary = true ∧ isLibrary file.key = true
  nodup : (base.loaded.map Loaded.key).Nodup

/-- How far loading has come: `files` are loaded, the requests in `seen` are dealt with, and those
in `queue` are not. -/
structure Advanced (target : Int) (texts : Store) (base : List Loaded) (roots : List Request)
    (state : Loading) (files : List Loaded) (seen queue : List Request) : Prop where
  same : state.store.SameTexts texts
  handles : ∀ key issued, state.store.handles.get? key = some issued →
    key ∈ state.loaded.map Loaded.key
  loaded : state.loaded = base ++ files
  read : ∀ file ∈ files, file.Read target texts
  requests : seen ++ queue = roots ++ files.flatMap Loaded.follows
  first : files.map Loaded.key = (seen.map Request.key).eraseDups
  named : ∀ file ∈ files,
    (seen.find? fun request ↦ request.key = file.key) = some ⟨file.file.name, file.key⟩
  reached : ∀ request ∈ seen ++ queue,
    ∃ n, ReachedIn (roots.map Request.key) texts.importedBy n request.key

section Advanced

variable {target : Int} {texts : Store} {base files : List Loaded} {roots seen queue : List Request}
  {state after : Loading} {request : Request}

theorem Begun.advanced {base : Loading} (h : base.Begun texts) :
    Advanced target texts base.loaded roots base [] [] roots where
  same := h.same
  handles := h.handles
  loaded := (List.append_nil _).symm
  read := by simp
  requests := by simp
  first := by simp
  named := by simp
  reached request hrequest := ⟨0, .root (List.mem_map_of_mem hrequest)⟩

theorem Advanced.root_or_follows (h : Advanced target texts base roots state files seen queue)
    (hrequest : request ∈ seen ++ queue) :
    request ∈ roots ∨ ∃ file ∈ files, request ∈ file.follows := by
  rw [h.requests, List.mem_append, List.mem_flatMap] at hrequest
  exact hrequest

theorem Advanced.proper (h : Advanced target texts base roots state files seen queue)
    (hroots : ∀ root ∈ roots, root.Proper) (hrequest : request ∈ seen ++ queue) :
    request.Proper := by
  obtain hroot | ⟨file, hfile, hfollows⟩ := h.root_or_follows hrequest
  · exact hroots request hroot
  · exact ((h.read file hfile).of_mem_follows hfollows).1

theorem Advanced.mem_seen_iff (h : Advanced target texts base roots state files seen queue)
    {key : String} : key ∈ files.map Loaded.key ↔ key ∈ seen.map Request.key := by
  rw [h.first, List.mem_eraseDups]

/-- A request is for a loaded file exactly if one for its path was dealt with before. -/
theorem Advanced.has_iff (h : Advanced target texts base roots state files seen queue)
    (hbase : ∀ file ∈ base, isLibrary file.key = true) (hproper : request.Proper) :
    state.has request = true ↔ request.key ∈ seen.map Request.key := by
  have hother : request.key ∉ base.map Loaded.key := by
    intro hmem
    obtain ⟨file, hfile, hkey⟩ := List.mem_map.1 hmem
    have hlibrary := hbase file hfile
    rw [hkey, hproper.isLibrary_key] at hlibrary
    cases hlibrary
  rw [Loading.has_iff, h.loaded, List.map_append, List.mem_append, or_iff_right hother,
    h.mem_seen_iff]

theorem Advanced.skip
    (h : Advanced target texts base roots state files seen (request :: queue))
    (hseen : request.key ∈ seen.map Request.key) :
    Advanced target texts base roots state files (seen ++ [request]) queue := by
  have hrequests : (seen ++ [request]) ++ queue = seen ++ request :: queue := by simp
  refine ⟨h.same, h.handles, h.loaded, h.read, hrequests ▸ h.requests, ?_, ?_,
    hrequests ▸ h.reached⟩
  · rw [List.map_append, List.map_singleton, eraseDups_concat, if_pos hseen, h.first]
  · intro file hfile
    rw [List.find?_append, h.named file hfile, Option.some_or]

/-- A file that is not loaded yet is parsed under the name of its request, if it is there. -/
theorem Advanced.source_eq
    (h : Advanced target texts base roots state files seen queue) (hproper : request.Proper)
    (hnew : state.has request = false) :
    source state.store request.name target =
      match texts.files.get? request.key with
      | none => .error (.missingVirtualFile request.key)
      | some text =>
        .ok (SourceFile.parse request.name text target, { state.store with
          handles := state.store.handles.insert request.key
            ⟨state.store.issued, state.store.services.handle request.name text target⟩,
          issued := state.store.issued + 1 }) := by
  have hnone : state.store.handles.get? (Store.handleKey request.name) = none := by
    rw [hproper.handleKey_name]
    cases hkept : state.store.handles.get? request.key with
    | none => rfl
    | some issued =>
      rw [← Bool.not_eq_true, Loading.has_iff] at hnew
      exact absurd (h.handles _ _ hkept) hnew
  have htext : state.store.textOf request.name =
      match texts.files.get? request.key with
      | some text => .ok text
      | none => .error (.missingVirtualFile request.key) := by
    have hread := state.store.textOf_of_isLibrary_eq_false hproper.project.spelled
    rw [← hproper.leads, h.same.files] at hread
    exact hread
  rw [source_of_get?_none hnone, htext, hproper.handleKey_name]
  cases texts.files.get? request.key <;> rfl

theorem Advanced.fail (h : Advanced target texts base roots state files seen (request :: queue))
    (hproper : request.Proper) (hnew : state.has request = false) {failure : Failure}
    (hload : load target state request = .error failure) :
    request ∈ roots ∧ texts.files.contains request.key = false := by
  have hmissing : texts.files.contains request.key = false := by
    unfold load at hload
    rw [h.source_eq hproper hnew] at hload
    rw [OrderedMap.contains]
    cases htext : texts.files.get? request.key with
    | none => rfl
    | some text =>
      rw [htext] at hload
      cases hload
  have hmem : request ∈ seen ++ request :: queue := by simp
  refine ⟨?_, hmissing⟩
  obtain hroot | ⟨file, hfile, hfollows⟩ := h.root_or_follows hmem
  · exact hroot
  · have hcontains := ((h.read file hfile).of_mem_follows hfollows).2.2
    rw [hmissing] at hcontains
    cases hcontains

theorem Advanced.step (h : Advanced target texts base roots state files seen (request :: queue))
    (hproper : request.Proper) (hnew : state.has request = false)
    (hunseen : request.key ∉ seen.map Request.key) {more : List Request}
    (hload : load target state request = .ok (after, more)) :
    ∃ file, Advanced target texts base roots after (files ++ [file]) (seen ++ [request])
      (queue ++ more) := by
  obtain ⟨parsed, hsource, hloaded, hmore⟩ := load_eq_ok_iff.1 hload
  have hsame : after.store.SameTexts texts := (sameTexts_source hsource).trans h.same
  rw [h.source_eq hproper hnew] at hsource
  cases htext : texts.files.get? request.key with
  | none =>
    rw [htext] at hsource
    cases hsource
  | some text =>
    rw [htext] at hsource
    obtain ⟨rfl, hstore⟩ := Prod.mk.inj (Except.ok.inj hsource)
    have hread : Loaded.Read target texts ⟨SourceFile.parse request.name text target, request.key,
        false, targets after.store request.key (SourceFile.parse request.name text target)⟩ :=
      ⟨htext, rfl, by rw [targets_eq_filterMap, targets_eq_filterMap, leadsTo?_of_sameTexts hsame],
        rfl⟩
    have hsplit : (seen ++ [request]) ++ (queue ++ more) =
        (seen ++ request :: queue) ++ more := by simp
    -- The path is requested for the first time, so this file is its first mention.
    refine ⟨_, hsame, ?_, ?_, List.forall_mem_append.2 ⟨h.read, List.forall_mem_singleton.2 hread⟩,
      ?_, ?_, ?_, ?_⟩
    · intro key issued hget
      rw [← hstore, OrderedMap.get?_insert] at hget
      rw [hloaded, List.map_append, List.mem_append]
      split at hget
      · rename_i hkey
        exact .inr (by simp [hkey])
      · exact .inl (h.handles key issued hget)
    · rw [hloaded, h.loaded, List.append_assoc]
    · rw [hsplit, h.requests, List.flatMap_append, List.flatMap_singleton, List.append_assoc,
        hmore]
    · simp only [List.map_append, List.map_singleton]
      rw [eraseDups_concat, if_neg hunseen, h.first]
    · refine List.forall_mem_append.2 ⟨fun file hfile ↦ ?_, List.forall_mem_singleton.2 ?_⟩
      · rw [List.find?_append, h.named file hfile, Option.some_or]
      · have hnone : (seen.find? fun other ↦ other.key = request.key) = none := by
          rw [List.find?_eq_none]
          intro other hother hkey
          exact hunseen (of_decide_eq_true hkey ▸ List.mem_map_of_mem hother)
        rw [List.find?_append, hnone, Option.none_or, List.find?_singleton, if_pos (by simp)]
        rfl
    · rw [hsplit]
      refine List.forall_mem_append.2 ⟨h.reached, fun next hnext ↦ ?_⟩
      obtain ⟨n, hn⟩ := h.reached request (by simp)
      refine ⟨n + 1, hn.step ?_⟩
      rw [← hread.map_key_follows, ← hmore]
      exact List.mem_map_of_mem hnext

theorem Runs.advanced {outcome : Except Interruption Loading}
    (hruns : Runs target state queue outcome)
    (h : Advanced target texts base roots state files seen queue)
    (hbase : ∀ file ∈ base, isLibrary file.key = true)
    (hroots : ∀ root ∈ roots, root.Proper) :
    (∃ interruption, outcome = .error interruption ∧
      ∃ root ∈ roots, texts.files.contains root.key = false) ∨
    ∃ final loaded dealt, outcome = .ok final ∧
      Advanced target texts base roots final loaded dealt [] := by
  -- The files and the requests dealt with grow along the run, so the induction is for all of them.
  induction hruns generalizing files seen with
  | done => exact .inr ⟨_, files, seen, rfl, h⟩
  | skip hhas _ ih =>
    have hproper := h.proper hroots (List.mem_append_right _ (List.mem_cons_self ..))
    exact ih (h.skip ((h.has_iff hbase hproper).1 hhas))
  | fail hnew hload =>
    have hproper := h.proper hroots (List.mem_append_right _ (List.mem_cons_self ..))
    exact .inl ⟨_, rfl, _, h.fail hproper hnew hload⟩
  | step hnew hload _ ih =>
    have hproper := h.proper hroots (List.mem_append_right _ (List.mem_cons_self ..))
    have hunseen := mt (h.has_iff hbase hproper).2 (Bool.eq_false_iff.1 hnew)
    obtain ⟨file, hstep⟩ := h.step hproper hnew hunseen hload
    exact ih hstep

end Advanced

end Loading

end VersionSweep
