import VersionSweep.Proofs.Project.ImportClosure
import VersionSweep.Proofs.Project.Reporting

/-!
# Files that nothing reaches

A program asks for a file of its store when a root is read, when the candidates of an import are
searched, and when something is to be written.  Where the store gains a file at another path, or a
new text for it, the program is the same, fails for the same reason and writes the same.
-/

namespace VersionSweep

open VirtualPath

/-- The elements that a search looks at, up to the first one that it finds. -/
def searched {α : Type} (p : α → Bool) : List α → List α
  | [] => []
  | a :: rest => if p a then [a] else a :: searched p rest

section Searched

variable {α : Type} {p q : α → Bool} {a : α} {list : List α}

theorem mem_searched_of_find?_eq_some (h : list.find? p = some a) : a ∈ searched p list := by
  induction list with
  | nil => cases h
  | cons first rest ih =>
    rw [searched]
    cases hp : p first with
    | true =>
      rw [List.find?_cons_of_pos hp] at h
      exact List.mem_singleton.2 (Option.some.inj h).symm
    | false =>
      rw [List.find?_cons_of_neg (by rw [hp]; decide)] at h
      exact List.mem_cons_of_mem _ (ih h)

theorem mem_of_mem_searched (h : a ∈ searched p list) : a ∈ list := by
  induction list with
  | nil => cases h
  | cons first rest ih =>
    rw [searched] at h
    split at h
    · rw [List.mem_singleton.1 h]
      exact List.mem_cons_self ..
    · exact (List.mem_cons.1 h).elim (fun h ↦ h ▸ List.mem_cons_self ..)
        fun h ↦ List.mem_cons_of_mem _ (ih h)

/-- A search comes out the same if what it looks at is the same. -/
theorem find?_eq_of_searched (h : ∀ a ∈ searched p list, q a = p a) :
    list.find? q = list.find? p := by
  induction list with
  | nil => rfl
  | cons first rest ih =>
    rw [searched] at h
    rw [List.find?_cons, List.find?_cons]
    cases hp : p first with
    | true =>
      rw [hp, if_pos rfl] at h
      rw [h first (List.mem_singleton_self _), hp]
    | false =>
      rw [hp, if_neg (by decide)] at h
      obtain ⟨hfirst, hrest⟩ := List.forall_mem_cons.1 h
      rw [hfirst, hp]
      exact ih hrest

end Searched

namespace OrderedMap

/-- Whether a map has what another one has, and may have gained or changed a value at one key. -/
structure Gains {α : Type} (key : String) (map more : OrderedMap α) : Prop where
  same : ∀ other, other ≠ key → more.get? other = map.get? other
  contains : more.contains key = true

theorem gains_insert {α : Type} (map : OrderedMap α) (key : String) (value : α) :
    map.Gains key (map.insert key value) := by
  refine ⟨fun other hother ↦ ?_, ?_⟩
  · rw [get?_insert, if_neg hother.symm]
  · rw [OrderedMap.contains, get?_insert, if_pos rfl]
    rfl

end OrderedMap

namespace Store

def withFiles (files : OrderedMap String) (store : Store) : Store :=
  { store with files }

variable {store : Store} {files : OrderedMap String} {key path : String}

theorem textOf_withFiles (hfiles : store.files.Gains key files) (hpath : canonical path ≠ key) :
    (store.withFiles files).textOf path = store.textOf path := by
  simp only [textOf, readLibrary, withFiles, hfiles.same _ hpath]

theorem fileExists_withFiles (hfiles : store.files.Gains key files)
    (hpath : canonical path ≠ key) :
    (store.withFiles files).fileExists path = store.fileExists path := by
  simp only [fileExists, OrderedMap.contains, withFiles, hfiles.same _ hpath]

theorem fileExists_withFiles_of_fileExists (hfiles : store.files.Gains key files)
    (h : store.fileExists path = true) : (store.withFiles files).fileExists path = true := by
  by_cases hpath : canonical path = key
  · rw [fileExists, hpath, withFiles, hfiles.contains, Bool.or_true]
  · rw [fileExists_withFiles hfiles hpath, h]

theorem textOf_withFiles_of_isLibrary (h : isLibrary path = true) :
    (store.withFiles files).textOf path = store.textOf path := by
  rw [textOf, textOf, if_pos h, if_pos h]
  rfl

theorem source_withFiles (htext : (store.withFiles files).textOf path = store.textOf path)
    (target : Int) :
    Loading.source (store.withFiles files) path target =
      (Loading.source store path target).map fun found ↦ (found.1, found.2.withFiles files) := by
  cases hkept : store.handles.get? (handleKey path) with
  | some issued =>
    have hkept' : (store.withFiles files).handles.get? (handleKey path) = some issued := hkept
    simp only [Loading.source, sourceHandle, hkept, hkept']
    cases issued.handle <;> rfl
  | none =>
    have hkept' : (store.withFiles files).handles.get? (handleKey path) = none := hkept
    rw [Loading.source_of_get?_none hkept, Loading.source_of_get?_none hkept', htext]
    cases store.textOf path <;> rfl

end Store

def Interruption.withFiles (files : OrderedMap String) (interruption : Interruption) :
    Interruption :=
  { interruption with store := interruption.store.withFiles files }

namespace Loading

def tries (store : Store) (importer specifier : String) : List String :=
  if isRelative specifier then
    searched (fun key ↦ !isLibrary key && store.fileExists key)
      ((candidates (VirtualPath.folder importer) specifier).map canonical)
  else []

def triedBy (store : Store) (importer : String) : Statement → List String
  | .importNames decl => tries store importer decl.specifier
  | _ => []

def Avoids (store : Store) (importer : String) (file : SourceFile) (key : String) : Prop :=
  ∀ statement ∈ file.statements, key ∉ triedBy store importer statement

instance (store : Store) (importer : String) (file : SourceFile) (key : String) :
    Decidable (Avoids store importer file key) :=
  inferInstanceAs
    (Decidable (∀ statement ∈ file.statements, key ∉ triedBy store importer statement))

def withFiles (files : OrderedMap String) (state : Loading) : Loading :=
  { state with store := state.store.withFiles files }

variable {target : Int} {texts store : Store} {state other after final : Loading}
  {queue more : List Request} {request : Request} {files : OrderedMap String}
  {key importer specifier : String} {file : SourceFile} {failure : Failure}
  {outcome : Except Interruption Loading}

theorem mem_tries_of_resolve? {leads : String}
    (h : resolve? store importer specifier = some leads) :
    leads ∈ tries store importer specifier := by
  unfold resolve? at h
  unfold tries
  split at h
  · rename_i hrelative
    rw [if_pos hrelative]
    exact mem_searched_of_find?_eq_some h
  · cases h

theorem resolve?_withFiles (hfiles : store.files.Gains key files)
    (h : key ∉ tries store importer specifier) :
    resolve? (store.withFiles files) importer specifier = resolve? store importer specifier := by
  unfold tries at h
  unfold resolve?
  split
  · rename_i hrelative
    rw [if_pos hrelative] at h
    apply find?_eq_of_searched
    intro path hpath
    obtain ⟨spelled, -, rfl⟩ := List.mem_map.1 (mem_of_mem_searched hpath)
    have hne : canonical (canonical spelled) ≠ key := by
      rw [canonical_canonical]
      exact fun heq ↦ h (heq ▸ hpath)
    rw [Store.fileExists_withFiles hfiles hne]
  · rfl

theorem targets_withFiles (hfiles : store.files.Gains key files)
    (h : Avoids store importer file key) :
    targets (store.withFiles files) importer file = targets store importer file := by
  refine List.filterMap_congr fun entry hentry ↦ ?_
  obtain ⟨statement, number⟩ := entry
  cases statement with
  | var decl => rfl
  | expr value span => rfl
  | importNames decl =>
    dsimp only
    rw [resolve?_withFiles hfiles (h _ (List.fst_mem_of_mem_zipIdx hentry))]

/-- What a file imports is requested by names that lead to paths that were tried. -/
theorem ne_of_mem_follows (h : Avoids store importer file key) {isLibrary : Bool}
    (hrequest :
      request ∈ (Loaded.mk file importer isLibrary (targets store importer file)).follows) :
    canonical request.name ≠ key := by
  obtain ⟨entry, hentry, rfl⟩ := List.mem_map.1 hrequest
  obtain ⟨statement, hstatement, hleads⟩ := mem_targets_iff.1 hentry
  obtain ⟨decl, rfl, hresolve⟩ := leadsTo?_eq_some_iff.1 hleads
  rw [(leads_of_mem_targets hentry).1]
  exact fun heq ↦ h _ (List.mem_of_getElem? hstatement) (heq ▸ mem_tries_of_resolve? hresolve)

section Success

/-- Loading keeps what is loaded. -/
theorem Runs.mem_of_mem (h : Runs target state queue outcome) (hfinal : outcome = .ok final)
    {file : Loaded} (hfile : file ∈ state.loaded) : file ∈ final.loaded := by
  induction h with
  | done => exact Except.ok.inj hfinal ▸ hfile
  | skip _ _ ih => exact ih hfinal hfile
  | fail _ _ => cases hfinal
  | step _ hload _ ih =>
    obtain ⟨parsed, -, hloaded, -⟩ := load_eq_ok_iff.1 hload
    exact ih hfinal (hloaded ▸ List.mem_append_left _ hfile)

theorem avoids_of_sameTexts (hsame : store.SameTexts texts) (h : Avoids texts importer file key) :
    Avoids store importer file key := by
  intro statement hstatement
  have htried : triedBy store importer statement = triedBy texts importer statement := by
    cases statement <;> simp only [triedBy, tries, Store.fileExists, hsame.files]
  rw [htried]
  exact h statement hstatement

/-- A run that loads all files loads the same ones from more files, if none of these imports tries
the new path. -/
theorem Runs.withFiles (h : Runs target state queue outcome) (hfinal : outcome = .ok final)
    (hfiles : texts.files.Gains key files) (hsame : state.store.SameTexts texts)
    (hqueue : ∀ request ∈ queue, canonical request.name ≠ key)
    (havoids : ∀ file ∈ final.loaded, file.isLibrary = false →
      Avoids texts file.key file.file key) :
    Runs target (state.withFiles files) queue (.ok (final.withFiles files)) := by
  induction h with
  | done => exact Except.ok.inj hfinal ▸ .done
  | skip hhas _ ih =>
    exact .skip hhas (ih hfinal hsame (List.forall_mem_cons.1 hqueue).2)
  | fail _ _ => cases hfinal
  | @step state after request queue more outcome hnew hload hrest ih =>
    obtain ⟨hrequest, hqueue⟩ := List.forall_mem_cons.1 hqueue
    obtain ⟨file, hsource, hloaded, hmore⟩ := load_eq_ok_iff.1 hload
    have hsameAfter : after.store.SameTexts texts := (sameTexts_load hload).trans hsame
    -- The new file is still there at the end, so its imports do not try the path either.
    have hmem : Loaded.mk file request.key false (targets after.store request.key file) ∈
        final.loaded :=
      hrest.mem_of_mem hfinal (hloaded ▸ List.mem_append_right _ (List.mem_singleton_self _))
    have hfile := avoids_of_sameTexts hsameAfter (havoids _ hmem rfl)
    have hload' : load target (state.withFiles files) request =
        .ok (after.withFiles files, more) := by
      refine load_eq_ok_iff.2 ⟨file, ?_, ?_⟩
      · have hgains : state.store.files.Gains key files := hsame.files ▸ hfiles
        rw [Loading.withFiles, Store.source_withFiles (Store.textOf_withFiles hgains hrequest),
          hsource]
        rfl
      · have hgains : after.store.files.Gains key files := hsameAfter.files ▸ hfiles
        rw [show (after.withFiles files).store = after.store.withFiles files from rfl,
          targets_withFiles hgains hfile]
        exact ⟨hloaded, hmore⟩
    refine .step hnew hload' (ih hfinal hsameAfter (List.forall_mem_append.2 ⟨hqueue, ?_⟩))
    intro next hnext
    exact ne_of_mem_follows hfile (hmore ▸ hnext)

end Success

section Failure

theorem exists_textOf_of_mem_follows {isLibrary : Bool}
    (h : request ∈ (Loaded.mk file importer isLibrary (targets store importer file)).follows) :
    ∃ text, store.textOf request.name = .ok text := by
  obtain ⟨entry, hentry, rfl⟩ := List.mem_map.1 h
  obtain ⟨text, htext⟩ := Option.isSome_iff_exists.1 (found_of_mem_targets hentry).2.2
  obtain ⟨hleads, hproject⟩ := leads_of_mem_targets hentry
  exact ⟨text, by rw [store.textOf_of_isLibrary_eq_false hproject.spelled, hleads, htext]⟩

/-- A request for a path that has a text does not fail. -/
theorem exists_load_of_textOf {text : String}
    (h : state.store.textOf request.name = .ok text) :
    ∃ after more, load target state request = .ok (after, more) := by
  obtain ⟨found, hsource⟩ : ∃ found, source state.store request.name target = .ok found := by
    cases hkept : state.store.handles.get? (Store.handleKey request.name) with
    | none => exact ⟨_, by rw [source_of_get?_none hkept, h]⟩
    | some issued =>
      simp only [source, Store.sourceHandle, hkept]
      cases issued.handle <;> exact ⟨_, rfl⟩
  exact ⟨_, _, by rw [load, hsource]⟩

/-- No import stops the loading, since what it leads to is there. -/
theorem Runs.exists_ok (h : Runs target state queue outcome)
    (hqueue : ∀ request ∈ queue, ∃ text, state.store.textOf request.name = .ok text) :
    ∃ final, outcome = .ok final := by
  induction h with
  | done => exact ⟨_, rfl⟩
  | skip _ _ ih => exact ih (List.forall_mem_cons.1 hqueue).2
  | fail _ hload =>
    obtain ⟨text, htext⟩ := (List.forall_mem_cons.1 hqueue).1
    obtain ⟨after, more, hok⟩ := exists_load_of_textOf htext
    rw [hload] at hok
    cases hok
  | step _ hload _ ih =>
    have hsame := sameTexts_load hload
    refine ih (List.forall_mem_append.2 ⟨fun next hnext ↦ ?_, fun next hnext ↦ ?_⟩)
    · rw [hsame.textOf]
      exact (List.forall_mem_cons.1 hqueue).2 next hnext
    · obtain ⟨file, -, -, rfl⟩ := load_eq_ok_iff.1 hload
      exact exists_textOf_of_mem_follows hnext

/-- Whether a state is as another one but for its files and for where the imports of loaded files
lead. -/
structure SameKeys (files : OrderedMap String) (state other : Loading) : Prop where
  store : other.store = state.store.withFiles files
  keys : other.loaded.map Loaded.key = state.loaded.map Loaded.key

theorem SameKeys.has_eq (h : SameKeys files state other) (request : Request) :
    other.has request = state.has request := by
  rw [Bool.eq_iff_iff, has_iff, has_iff, h.keys]

theorem SameKeys.load_error (h : SameKeys files state other)
    (hfiles : state.store.files.Gains key files) (hrequest : canonical request.name ≠ key)
    (hload : load target state request = .error failure) :
    load target other request = .error failure := by
  have hsource := Store.source_withFiles (Store.textOf_withFiles hfiles hrequest) target
  rw [load, h.store, hsource]
  rw [load] at hload
  cases hfound : source state.store request.name target with
  | error failure' =>
    rw [hfound] at hload
    exact hload
  | ok found =>
    rw [hfound] at hload
    cases hload

theorem SameKeys.load_ok (h : SameKeys files state other)
    (hfiles : state.store.files.Gains key files) (hrequest : canonical request.name ≠ key)
    (hload : load target state request = .ok (after, more)) :
    ∃ after' more', load target other request = .ok (after', more') ∧
      SameKeys files after after' := by
  obtain ⟨file, hfile, hloaded, -⟩ := load_eq_ok_iff.1 hload
  have hsource := Store.source_withFiles (Store.textOf_withFiles hfiles hrequest) target
  rw [hfile, ← h.store] at hsource
  let loaded : Loaded := ⟨file, request.key, false,
    targets (after.store.withFiles files) request.key file⟩
  have hload' : load target other request =
      .ok (⟨after.store.withFiles files, other.loaded ++ [loaded]⟩, loaded.follows) :=
    load_eq_ok_iff.2 ⟨file, hsource, rfl, rfl⟩
  refine ⟨_, _, hload', rfl, ?_⟩
  rw [hloaded, List.map_append, List.map_append, h.keys]
  rfl

/-- A run that fails fails at a root, so it does the same from more files, whatever is imported. -/
theorem Runs.error_withFiles {roots extra : List Request}
    {interruption : Interruption} (h : Runs target state (roots ++ extra) (.error interruption))
    (extra' : List Request)
    (hsame : SameKeys files state other)
    (hfiles : state.store.files.Gains key files)
    (hroots : ∀ request ∈ roots, canonical request.name ≠ key)
    (hextra : ∀ request ∈ extra, ∃ text, state.store.textOf request.name = .ok text) :
    Runs target other (roots ++ extra') (.error (interruption.withFiles files)) := by
  -- Behind the roots stands what is imported, another queue in each run as far as we know.
  induction roots generalizing state other extra extra' with
  | nil =>
    obtain ⟨final, hfinal⟩ := h.exists_ok hextra
    cases hfinal
  | cons root rest ih =>
    obtain ⟨hroot, hrest⟩ := List.forall_mem_cons.1 hroots
    cases h with
    | skip hhas hrun =>
      rw [← hsame.has_eq] at hhas
      exact .skip hhas (ih hrun extra' hsame hfiles hrest hextra)
    | fail hnew hload =>
      rw [← hsame.has_eq] at hnew
      rw [Interruption.withFiles, ← hsame.store]
      exact .fail hnew (hsame.load_error hfiles hroot hload)
    | @step _ after _ _ more _ hnew hload hrun =>
      rw [← hsame.has_eq] at hnew
      obtain ⟨after', more', hload', hsameAfter⟩ := hsame.load_ok hfiles hroot hload
      have htexts := sameTexts_load hload
      have hqueue (extra more : List Request) :
          rest.append extra ++ more = rest ++ (extra ++ more) :=
        List.append_assoc rest extra more
      refine .step hnew hload' ?_
      rw [hqueue] at hrun ⊢
      refine ih hrun (extra' ++ more') hsameAfter (htexts.files ▸ hfiles) hrest
        (List.forall_mem_append.2 ⟨fun next hnext ↦ ?_, fun next hnext ↦ ?_⟩)
      · rw [htexts.textOf]
        exact hextra next hnext
      · obtain ⟨file, -, -, rfl⟩ := load_eq_ok_iff.1 hload
        exact exists_textOf_of_mem_follows hnext

end Failure

/-- There is one thing only that a run can come to. -/
theorem Runs.unique (h : Runs target state queue outcome) {outcome' : Except Interruption Loading}
    (h' : Runs target state queue outcome') : outcome = outcome' := by
  induction h with
  | done =>
    cases h'
    rfl
  | skip hhas _ ih =>
    cases h' with
    | skip _ hrun => exact ih hrun
    | fail hnew _ => simp [hhas] at hnew
    | step hnew _ _ => simp [hhas] at hnew
  | fail hnew hload =>
    cases h' with
    | skip hhas _ => simp [hhas] at hnew
    | fail _ hload' => rw [hload] at hload'; rw [Except.error.inj hload']
    | step _ hload' _ => simp [hload] at hload'
  | step hnew hload _ ih =>
    cases h' with
    | skip hhas _ => simp [hhas] at hnew
    | fail _ hload' => simp [hload] at hload'
    | step _ hload' hrun =>
      rw [hload] at hload'
      obtain ⟨rfl, rfl⟩ := Prod.mk.inj (Except.ok.inj hload')
      exact ih hrun

section Library

variable {settings : Assignment} {base : Loading}

theorem loadLibrary_withFiles (settings : Assignment) (store : Store)
    (files : OrderedMap String) :
    loadLibrary settings (store.withFiles files) =
      (loadLibrary settings store).map (withFiles files) := by
  rw [loadLibrary, loadLibrary]
  cases settings.flag "noLib" with
  | true => rfl
  | false =>
    have htext : (store.withFiles files).textOf (store.defaultLibrary settings) =
        store.textOf (store.defaultLibrary settings) :=
      Store.textOf_withFiles_of_isLibrary (handleKey_defaultLibrary store settings).2
    have hpath : (store.withFiles files).defaultLibrary settings = store.defaultLibrary settings :=
      rfl
    rw [if_neg (by decide), if_neg (by decide)]
    dsimp only
    rw [hpath, Store.source_withFiles htext]
    cases source store (store.defaultLibrary settings) (Target.ofSettings settings) <;> rfl

theorem begun_of_loadLibrary (hhandles : store.handles = .empty)
    (h : loadLibrary settings store = .ok base) : base.Begun store := by
  have hreadable (hnoLib : settings.flag "noLib" = false) :
      ∃ text, store.textOf (store.defaultLibrary settings) = .ok text := by
    have hnone : store.handles.get? (Store.handleKey (store.defaultLibrary settings)) = none := by
      rw [hhandles, OrderedMap.get?_empty]
    rw [loadLibrary, hnoLib, if_neg (by decide)] at h
    dsimp only at h
    rw [source_of_get?_none hnone] at h
    cases htext : store.textOf (store.defaultLibrary settings) with
    | ok text => exact ⟨text, rfl⟩
    | error failure =>
      rw [htext] at h
      cases h
  obtain ⟨base', hbase', hbegun⟩ := exists_begun_of_readable hhandles hreadable
  rwa [Except.ok.inj (h.symm.trans hbase')]

end Library

end Loading

section Build

variable {store : Store} {files : OrderedMap String} {key : String} {settings : Assignment}
  {roots : List String} {dialect : Dialect}

theorem Program.make_withFiles (hhandles : store.handles = .empty)
    (hfiles : store.files.Gains key files) (hroots : ∀ root ∈ roots, canonical root ≠ key)
    (havoids : ∀ program after, make dialect roots settings store = .ok (program, after) →
      ∀ unit ∈ program.sources, Loading.Avoids store unit.key unit.file key) :
    make dialect roots settings (store.withFiles files) =
      ((make dialect roots settings store).mapError (·.withFiles files)).map fun made ↦
        (made.1, made.2.withFiles files) := by
  have hlibrary := Loading.loadLibrary_withFiles settings store files
  cases hbase : Loading.loadLibrary settings store with
  | error failure =>
    rw [hbase] at hlibrary
    rw [make, make, hbase, hlibrary]
    rfl
  | ok base =>
    rw [hbase] at hlibrary
    have hbegun := Loading.begun_of_loadLibrary hhandles hbase
    have hbegun' : (base.withFiles files).Begun (store.withFiles files) :=
      Loading.begun_of_loadLibrary hhandles hlibrary
    have hruns := Loading.runs_of_begun hbegun roots (Target.ofSettings settings)
    have hruns' := Loading.runs_of_begun hbegun' roots (Target.ofSettings settings)
    have hmake := make_eq_map hbase dialect roots
    have hqueue : ∀ request ∈ roots.map Request.ofRoot, canonical request.name ≠ key := by
      intro request hrequest
      obtain ⟨root, hroot, rfl⟩ := List.mem_map.1 hrequest
      exact hroots root hroot
    rw [make_eq_map hlibrary, hmake]
    cases houtcome : Loading.loadAll (Target.ofSettings settings)
      (store.files.size + roots.length + 1) base (roots.map .ofRoot) with
    | error interruption =>
      rw [houtcome, ← List.append_nil (roots.map Request.ofRoot)] at hruns
      have hgains : base.store.files.Gains key files := hbegun.same.files ▸ hfiles
      have hsame : Loading.SameKeys files base (base.withFiles files) := ⟨rfl, rfl⟩
      have hfails := hruns.error_withFiles [] hsame hgains hqueue (by simp)
      rw [List.append_nil] at hfails
      rw [hruns'.unique hfails]
      rfl
    | ok final =>
      rw [houtcome] at hruns hmake
      have hloads := hruns.withFiles rfl hfiles hbegun.same hqueue ?_
      · rw [hruns'.unique hloads]
        rfl
      · intro file hfile hlibrary
        have hunit : final.unitOf file ∈ final.units.filter fun unit ↦ !unit.isLibrary := by
          rw [Loading.units_eq_map]
          exact List.mem_filter.2 ⟨List.mem_map_of_mem hfile, by simp [Loading.unitOf, hlibrary]⟩
        exact havoids _ _ hmake _ hunit

end Build

namespace Emit

theorem writeAll_withFiles {store : Store} {files : OrderedMap String} {key : String}
    (hfiles : store.files.Gains key files) {artifacts : List Artifact}
    (h : ∀ artifact ∈ artifacts, store.fileExists artifact.path = false →
      canonical artifact.path ≠ key) :
    writeAll (store.withFiles files) artifacts =
      ((writeAll store artifacts).1.withFiles files, (writeAll store artifacts).2) := by
  induction artifacts generalizing store with
  | nil => rfl
  | cons artifact rest ih =>
    obtain ⟨hartifact, hrest⟩ := List.forall_mem_cons.1 h
    rw [writeAll, writeAll, write, write]
    cases hexists : store.fileExists artifact.path with
    | true =>
      have hexists' := Store.fileExists_withFiles_of_fileExists hfiles hexists
      simp only [hexists', if_true, ih hfiles hrest]
    | false =>
      have hexists' := Store.fileExists_withFiles hfiles (hartifact hexists)
      rw [hexists] at hexists'
      have hput : (store.withFiles files).putOutput artifact.path artifact.text =
          (store.putOutput artifact.path artifact.text).withFiles files := rfl
      simp only [hexists', Bool.false_eq_true, if_false, hput,
        @ih (store.putOutput artifact.path artifact.text) hfiles hrest]

end Emit

end VersionSweep
