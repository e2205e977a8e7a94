import Mathlib.Data.List.Nodup
import VersionSweep.Project.Program
import VersionSweep.Proofs.Language.SourceSpans
import VersionSweep.Proofs.Project.CanonicalPath

/-!
# Files are served under their names

A store hands out the same parsed file for all spellings of a path, under the name by which the file
was asked for first.  That name still leads to the text that was parsed, and to the canonical path
under which the file is loaded.  `served_loadAll` keeps this through the whole loading of a program,
in which each canonical path is loaded once.
-/

namespace VersionSweep

namespace Store

structure SameTexts (store other : Store) : Prop where
  files : store.files = other.files
  library : store.library = other.library

theorem SameTexts.textOf {store other : Store} (h : store.SameTexts other) (path : String) :
    store.textOf path = other.textOf path := by
  simp only [Store.textOf, readLibrary, h.files, h.library]

theorem SameTexts.refl (store : Store) : store.SameTexts store :=
  ⟨rfl, rfl⟩

theorem SameTexts.trans {store middle other : Store} (h : store.SameTexts middle)
    (h' : middle.SameTexts other) : store.SameTexts other :=
  ⟨h.files.trans h'.files, h.library.trans h'.library⟩

theorem SameTexts.sourceText {store other : Store} (h : store.SameTexts other) (path : String) :
    store.sourceText path = other.sourceText path := by
  rw [Store.sourceText, Store.sourceText, h.textOf]

end Store

structure SourceFile.ReadFrom (store : Store) (target : Int) (file : SourceFile) : Prop where
  text : store.textOf file.name = .ok file.text
  parse : file = .parse file.name file.text target

theorem SourceFile.ReadFrom.of_sameTexts {store other : Store} {target : Int} {file : SourceFile}
    (h : file.ReadFrom store target) (hsame : store.SameTexts other) :
    file.ReadFrom other target :=
  ⟨hsame.textOf file.name ▸ h.text, h.parse⟩

theorem SourceFile.ReadFrom.sound {store : Store} {target : Int} {file : SourceFile}
    (h : file.ReadFrom store target) : file.Sound :=
  h.parse ▸ sound_parse file.name file.text target

namespace Store

/-- A store that parses and whose handles are what it reads, each one kept under the key of its
name. -/
structure Faithful (target : Int) (store : Store) : Prop where
  services : store.services = .language
  handles : ∀ key issued, store.handles.get? key = some issued →
    ∃ file, issued.handle = .parsed file ∧ file.ReadFrom store target ∧
      handleKey file.name = key

/-- What a request for a path is served: a file that was read under a name of the same canonical
path, and a store that is as before but for its handles. -/
structure Serves (target : Int) (store : Store) (path : String) (file : SourceFile)
    (after : Store) : Prop where
  faithful : after.Faithful target
  same : after.SameTexts store
  outputs : after.outputs = store.outputs
  read : file.ReadFrom store target
  canonical : VirtualPath.canonical file.name = VirtualPath.canonical path

theorem canonical_eq_of_handleKey_eq {path other : String}
    (h : handleKey path = handleKey other) :
    VirtualPath.canonical path = VirtualPath.canonical other := by
  rw [← canonical_handleKey path, h, canonical_handleKey]

theorem faithful_of_handles_eq {store : Store} (hservices : store.services = .language)
    (hhandles : store.handles = .empty) (target : Int) : store.Faithful target := by
  refine ⟨hservices, fun key issued hget ↦ ?_⟩
  rw [hhandles, OrderedMap.get?_empty] at hget
  cases hget

theorem Faithful.keep {store : Store} {target : Int} (h : store.Faithful target)
    {file : SourceFile} (hread : file.ReadFrom store target) (serial next : Nat) :
    ({ store with
        handles := store.handles.insert (handleKey file.name) ⟨serial, .parsed file⟩,
        issued := next } : Store).Faithful target := by
  refine ⟨h.services, fun key issued hget ↦ ?_⟩
  rw [OrderedMap.get?_insert] at hget
  split at hget
  · rename_i hkey
    obtain rfl := Option.some.inj hget
    exact ⟨file, rfl, hread.of_sameTexts ⟨rfl, rfl⟩, hkey⟩
  · obtain ⟨kept, hkept, hkeptRead, hkeptKey⟩ := h.handles key issued hget
    exact ⟨kept, hkept, hkeptRead.of_sameTexts ⟨rfl, rfl⟩, hkeptKey⟩

theorem Faithful.source_eq {store : Store} {target : Int} (h : store.Faithful target)
    (path : String) :
    (∃ file, file.ReadFrom store target ∧ handleKey file.name = handleKey path ∧
      Loading.source store path target = .ok (file, store)) ∨
    Loading.source store path target =
      match store.textOf path with
      | .error failure => .error failure
      | .ok text =>
        .ok (SourceFile.parse path text target, { store with
          handles := store.handles.insert (handleKey path)
            ⟨store.issued, .parsed (SourceFile.parse path text target)⟩,
          issued := store.issued + 1 }) := by
  cases hkept : store.handles.get? (handleKey path) with
  | some issued =>
    obtain ⟨file, hfile, hread, hkey⟩ := h.handles _ _ hkept
    refine .inl ⟨file, hread, hkey, ?_⟩
    simp only [Loading.source, sourceHandle, hkept, hfile]
  | none =>
    refine .inr ?_
    cases htext : store.textOf path with
    | error failure => simp only [Loading.source, sourceHandle, hkept, htext]
    | ok text =>
      simp only [Loading.source, sourceHandle, hkept, htext, h.services, Services.handle]

theorem Faithful.serves_source {store after : Store} {target : Int} (h : store.Faithful target)
    {path : String} {file : SourceFile}
    (hsource : Loading.source store path target = .ok (file, after)) :
    store.Serves target path file after := by
  obtain ⟨kept, hread, hkey, hkept⟩ | hnew := h.source_eq path
  · obtain ⟨rfl, rfl⟩ := Prod.mk.inj (Except.ok.inj (hsource.symm.trans hkept))
    exact ⟨h, .refl _, rfl, hread, canonical_eq_of_handleKey_eq hkey⟩
  · rw [hnew] at hsource
    split at hsource
    · cases hsource
    · rename_i text htext
      obtain ⟨rfl, rfl⟩ := Prod.mk.inj (Except.ok.inj hsource)
      have hread : (SourceFile.parse path text target).ReadFrom store target := ⟨htext, rfl⟩
      exact ⟨h.keep hread _ _, ⟨rfl, rfl⟩, rfl, hread, rfl⟩

end Store

def Request.Leads (request : Request) : Prop :=
  request.key = VirtualPath.canonical request.name

namespace Loading

/-- What loading has come to: the files were read from the texts of the store that it began with,
and each canonical path was loaded once. -/
structure Served (target : Int) (texts : Store) (state : Loading) : Prop where
  store : state.store.Faithful target
  same : state.store.SameTexts texts
  outputs : state.store.outputs = texts.outputs
  loaded : ∀ file ∈ state.loaded, file.file.ReadFrom texts target ∧
    VirtualPath.canonical file.file.name = file.key
  nodup : (state.loaded.map Loaded.key).Nodup

variable {target : Int} {texts : Store} {state after : Loading}

/-- A specifier leads to a file of the project, by its canonical path. -/
theorem found_of_resolve? {store : Store} {importer specifier key : String}
    (h : resolve? store importer specifier = some key) :
    VirtualPath.canonical key = key ∧ VirtualPath.isLibrary key = false ∧
      store.files.contains key = true := by
  unfold resolve? at h
  split at h
  · obtain ⟨spelled, -, rfl⟩ := List.mem_map.1 (List.mem_of_find?_eq_some h)
    have hexists := List.find?_some h
    simp only [Bool.and_eq_true, Bool.not_eq_true', Store.fileExists,
      VirtualPath.canonical_canonical] at hexists
    obtain ⟨hlibrary, hcontains⟩ := hexists
    rw [hlibrary, Bool.false_or] at hcontains
    exact ⟨VirtualPath.canonical_canonical spelled, hlibrary, hcontains⟩
  · cases h

theorem canonical_of_mem_targets {store : Store} {key : String} {file : SourceFile}
    {entry : Nat × String} (h : entry ∈ targets store key file) :
    ∃ path, VirtualPath.canonical path = entry.2 := by
  obtain ⟨⟨statement, number⟩, -, hentry⟩ := List.mem_filterMap.1 h
  cases statement with
  | var decl => cases hentry
  | expr value span => cases hentry
  | importNames decl =>
    obtain ⟨path, hpath, rfl⟩ := Option.map_eq_some_iff.1 hentry
    exact ⟨path, (found_of_resolve? hpath).1⟩

theorem Served.load (h : state.Served target texts) {request : Request} {more : List Request}
    (hrequest : request.Leads) (hnew : state.has request = false)
    (hload : load target state request = .ok (after, more)) :
    after.Served target texts ∧ ∀ next ∈ more, next.Leads := by
  unfold Loading.load at hload
  split at hload
  · cases hload
  rename_i file store hsource
  obtain ⟨rfl, rfl⟩ := Prod.mk.inj (Except.ok.inj hload)
  have hserved := h.store.serves_source hsource
  refine ⟨⟨hserved.faithful, hserved.same.trans h.same, hserved.outputs.trans h.outputs, ?_, ?_⟩,
    ?_⟩
  · intro loaded hloaded
    rcases List.mem_append.1 hloaded with hloaded | hloaded
    · exact h.loaded loaded hloaded
    · obtain rfl := List.mem_singleton.1 hloaded
      exact ⟨hserved.read.of_sameTexts h.same, hserved.canonical.trans hrequest.symm⟩
  -- The request was not loaded yet, so its canonical path comes up for the first time.
  · rw [List.map_append, List.nodup_append]
    refine ⟨h.nodup, by simp, fun key hkey other hother hsame ↦ ?_⟩
    obtain ⟨loaded, hloaded, rfl⟩ := List.mem_map.1 hkey
    obtain rfl : other = request.key := by simpa using hother
    have hnone := List.any_eq_false.1 hnew loaded hloaded
    exact hnone (decide_eq_true hsame)
  · intro next hnext
    obtain ⟨entry, hentry, rfl⟩ := List.mem_map.1 hnext
    obtain ⟨path, hpath⟩ := canonical_of_mem_targets hentry
    rw [Request.Leads, ← hpath, VirtualPath.canonical_displayName_canonical]

/-- Requests for loaded files are dropped, so the next one leads to a new file. -/
theorem has_eq_false_of_dropWhile {request : Request} {queue rest : List Request}
    (h : queue.dropWhile state.has = request :: rest) :
    state.has request = false ∧ ∀ next ∈ request :: rest, next ∈ queue := by
  constructor
  · have hhead := List.head?_dropWhile_not state.has queue
    rwa [h] at hhead
  · intro next hnext
    rw [← h] at hnext
    exact (List.dropWhile_sublist state.has).mem hnext

theorem served_loadAll {rounds : Nat} (h : state.Served target texts) {queue : List Request}
    (hqueue : ∀ request ∈ queue, request.Leads)
    (hload : loadAll target rounds state queue = .ok after) : after.Served target texts := by
  induction rounds generalizing state queue with
  | zero =>
    obtain rfl := Except.ok.inj hload
    exact h
  | succ rounds ih =>
    rw [loadAll] at hload
    split at hload
    · obtain rfl := Except.ok.inj hload
      exact h
    · rename_i request rest hdrop
      obtain ⟨hnew, hmem⟩ := has_eq_false_of_dropWhile hdrop
      split at hload
      · cases hload
      · rename_i state' more hstep
        obtain ⟨hstate', hmore⟩ := h.load (hqueue _ (hmem _ (List.mem_cons_self ..))) hnew hstep
        refine ih hstate' (fun next hnext ↦ ?_) hload
        rcases List.mem_append.1 hnext with hnext | hnext
        · exact hqueue next (hmem next (List.mem_cons_of_mem _ hnext))
        · exact hmore next hnext

theorem canonical_defaultLibrary {store : Store} (h : store.services = .language)
    (settings : Assignment) :
    VirtualPath.canonical (store.defaultLibrary settings) = store.defaultLibrary settings := by
  rw [Store.defaultLibrary, h, Services.libraryName, Target.libraryName]
  split <;> decide

theorem served_loadLibrary {store : Store} {settings : Assignment}
    (h : store.Faithful (Target.ofSettings settings))
    (hload : loadLibrary settings store = .ok after) :
    after.Served (Target.ofSettings settings) store := by
  unfold loadLibrary at hload
  split at hload
  · obtain rfl := Except.ok.inj hload
    exact ⟨h, .refl _, rfl, fun _ h ↦ (List.not_mem_nil h).elim, List.nodup_nil⟩
  · dsimp only at hload
    split at hload
    · cases hload
    · rename_i file store' hsource
      obtain rfl := Except.ok.inj hload
      have hserved := h.serves_source hsource
      refine ⟨hserved.faithful, hserved.same, hserved.outputs, fun loaded hloaded ↦ ?_, by simp⟩
      obtain rfl := List.mem_singleton.1 hloaded
      exact ⟨hserved.read, hserved.canonical.trans (canonical_defaultLibrary h.services settings)⟩

theorem Served.eq_of_name_eq (h : state.Served target texts) {file other : Loaded}
    (hfile : file ∈ state.loaded) (hother : other ∈ state.loaded)
    (hname : file.file.name = other.file.name) : file = other := by
  refine List.inj_on_of_nodup_map h.nodup hfile hother ?_
  rw [← (h.loaded file hfile).2, hname, (h.loaded other hother).2]

theorem Served.readFrom_of_mem_units (h : state.Served target texts) {unit : SourceUnit}
    (hunit : unit ∈ state.units) : unit.file.ReadFrom texts target := by
  obtain ⟨file, hfile, rfl⟩ := List.mem_map.1 hunit
  exact (h.loaded file hfile).1

theorem Served.unit_eq_of_name_eq (h : state.Served target texts) {unit other : SourceUnit}
    (hunit : unit ∈ state.units) (hother : other ∈ state.units)
    (hname : unit.file.name = other.file.name) : unit = other := by
  obtain ⟨file, hfile, rfl⟩ := List.mem_map.1 hunit
  obtain ⟨file', hfile', rfl⟩ := List.mem_map.1 hother
  rw [h.eq_of_name_eq hfile hfile' hname]

end Loading

namespace Program

variable {settings : Assignment} {store : Store}

/-- Loading does not look at the dialect: it fails in all dialects, or it serves files from which a
program is made in each dialect. -/
theorem make_cases (h : store.Faithful (Target.ofSettings settings)) (roots : List String) :
    (∃ interruption, ∀ dialect, make dialect roots settings store = .error interruption) ∨
    ∃ loading : Loading, loading.Served (Target.ofSettings settings) store ∧
      ∀ dialect, make dialect roots settings store =
        .ok (⟨settings, loading.units, Checking.check loading.units settings dialect⟩,
          loading.store) := by
  cases hlibrary : Loading.loadLibrary settings store with
  | error failure => exact .inl ⟨⟨failure, store⟩, fun _ ↦ by simp only [make, hlibrary]⟩
  | ok library =>
    cases hloading : Loading.loadAll (Target.ofSettings settings)
        (store.files.size + roots.length + 1) library
        (roots.map fun root ↦ ⟨root, VirtualPath.canonical root⟩) with
    | error interruption =>
      exact .inl ⟨interruption, fun _ ↦ by simp only [make, hlibrary, hloading]⟩
    | ok loading =>
      refine .inr ⟨loading, ?_, fun _ ↦ by simp only [make, hlibrary, hloading]⟩
      refine Loading.served_loadAll (Loading.served_loadLibrary h hlibrary) ?_ hloading
      intro request hrequest
      obtain ⟨root, -, rfl⟩ := List.mem_map.1 hrequest
      rfl

/-- A program is made of served files, and checked as they stand. -/
theorem exists_loading_of_build (h : store.Faithful (Target.ofSettings settings))
    {dialect : Dialect} {roots : List String} {after : Store} {program : Program}
    (hbuild : build dialect roots settings store = .ok (program, after)) :
    ∃ loading : Loading, loading.Served (Target.ofSettings settings) store ∧
      loading.store = after ∧
      program = ⟨settings, loading.units, Checking.check loading.units settings dialect⟩ := by
  rw [build_eq_ok_iff] at hbuild
  obtain ⟨interruption, hstopped⟩ | ⟨loading, hserved, hmade⟩ := make_cases h roots
  · rw [hstopped] at hbuild
    cases hbuild
  · rw [hmade] at hbuild
    obtain ⟨rfl, rfl⟩ := Prod.mk.inj (Except.ok.inj hbuild)
    exact ⟨loading, hserved, rfl, rfl⟩

end Program

end VersionSweep
