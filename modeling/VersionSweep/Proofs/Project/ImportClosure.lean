import VersionSweep.Proofs.Project.Advance

/-!
# What a program is made of

A program is made of the library file and of all files that its roots lead to by imports, in
breadth-first order, each one once.  Only a root that is not there stops it from being made.  A unit
has the name by which it was asked for first, which is the first spelling of a root, or the
shortened path of a file that is merely imported.  Its imports lead to the units of the files that
they resolve to.
-/

namespace VersionSweep

open VirtualPath

def Request.ofRoot (root : String) : Request :=
  ⟨root, canonical root⟩

@[simp] theorem Request.key_ofRoot (root : String) : (ofRoot root).key = canonical root :=
  rfl

@[simp] theorem Request.name_ofRoot (root : String) : (ofRoot root).name = root :=
  rfl

section Lists

variable {α β : Type*}

theorem lookup_eq_some_iff_mem {entries : List (Nat × β)} {number : Nat} {value : β}
    (hsingle : ∀ other, (number, value) ∈ entries → (number, other) ∈ entries → value = other) :
    entries.lookup number = some value ↔ (number, value) ∈ entries := by
  constructor
  · intro h
    obtain ⟨before, after, rfl, -⟩ := List.lookup_eq_some_iff.1 h
    simp
  · intro hmem
    cases hfound : entries.lookup number with
    | none =>
      have hne := List.lookup_eq_none_iff.1 hfound _ hmem
      simp at hne
    | some other =>
      obtain ⟨before, after, rfl, -⟩ := List.lookup_eq_some_iff.1 hfound
      rw [hsingle other hmem (by simp)]

theorem findIdx?_eq_some_iff_of_nodup [DecidableEq β] {elements : List α} {key : α → β}
    (h : (elements.map key).Nodup) {wanted : β} {index : Nat} :
    (elements.findIdx? fun element ↦ key element = wanted) = some index ↔
      (elements.map key)[index]? = some wanted := by
  rw [List.findIdx?_eq_some_iff_getElem, List.getElem?_eq_some_iff]
  constructor
  · rintro ⟨hlt, hkey, -⟩
    exact ⟨by simpa using hlt, by simpa using hkey⟩
  · rintro ⟨hlt, hkey⟩
    refine ⟨by simpa using hlt, by simpa using hkey, fun earlier hearlier hsame ↦ ?_⟩
    have hbefore : earlier < elements.length := by
      rw [List.length_map] at hlt
      omega
    have hfound : (elements.map key)[earlier]? = some wanted := by
      rw [List.getElem?_map, List.getElem?_eq_getElem hbefore]
      simpa using hsame
    have hplace : (elements.map key)[index]? = some wanted :=
      List.getElem?_eq_some_iff.2 ⟨hlt, hkey⟩
    have hindex : index = earlier := (List.getElem?_inj hlt h).1 (hplace.trans hfound.symm)
    omega

end Lists

namespace Loading

section Finished

variable {target : Int} {texts : Store} {base files : List Loaded} {roots seen : List Request}
  {state : Loading}

theorem Advanced.seen_eq (h : Advanced target texts base roots state files seen []) :
    seen = roots ++ files.flatMap Loaded.follows := by
  rw [← h.requests, List.append_nil]

/-- With an empty queue all that the roots lead to is loaded, in breadth-first order. -/
theorem Advanced.breadthFirst (h : Advanced target texts base roots state files seen []) :
    BreadthFirst (roots.map Request.key) texts.importedBy (files.map Loaded.key) := by
  have hfollows : (files.flatMap Loaded.follows).map Request.key =
      (files.map Loaded.key).flatMap texts.importedBy := by
    rw [List.map_flatMap, List.flatMap_map]
    exact List.flatMap_congr fun file hfile ↦ (h.read file hfile).map_key_follows
  refine .of_mentions ?_ fun key hkey ↦ ?_
  · rw [← hfollows, ← List.map_append, ← h.seen_eq, h.first]
  · obtain ⟨request, hrequest, rfl⟩ := List.mem_map.1 (h.mem_seen_iff.1 hkey)
    exact h.reached request (List.mem_append_left _ hrequest)

theorem Advanced.contains_of_root (h : Advanced target texts base roots state files seen [])
    {root : Request} (hroot : root ∈ roots) : texts.files.contains root.key = true := by
  have hmem : root.key ∈ files.map Loaded.key :=
    h.breadthFirst.mem_of_root (List.mem_map_of_mem hroot)
  obtain ⟨file, hfile, hkey⟩ := List.mem_map.1 hmem
  rw [← hkey, OrderedMap.contains, (h.read file hfile).text]
  rfl

/-- A file has the name of the first root that leads to it, or a shortened path if none does. -/
theorem Advanced.name_eq (h : Advanced target texts base roots state files seen [])
    {file : Loaded} (hfile : file ∈ files) :
    file.file.name =
      ((roots.find? fun root ↦ root.key = file.key).map Request.name).getD
        (displayName file.key) := by
  have hnamed := h.named file hfile
  rw [h.seen_eq, List.find?_append] at hnamed
  cases hroot : roots.find? fun root ↦ root.key = file.key with
  | some root =>
    rw [hroot, Option.some_or] at hnamed
    rw [Option.some.inj hnamed]
    rfl
  | none =>
    rw [hroot, Option.none_or] at hnamed
    obtain ⟨importer, himporter, hfollows⟩ :=
      List.mem_flatMap.1 (List.mem_of_find?_eq_some hnamed)
    exact ((h.read importer himporter).of_mem_follows hfollows).2.1

end Finished

def unitOf (state : Loading) (file : Loaded) : SourceUnit where
  file := file.file
  key := file.key
  isLibrary := file.isLibrary
  imports := file.targets.filterMap fun (statement, leads) ↦
    (state.loaded.findIdx? fun other ↦ other.key = leads).map fun index ↦ (statement, index)

theorem units_eq_map (state : Loading) : state.units = state.loaded.map state.unitOf :=
  rfl

theorem map_key_units (state : Loading) :
    state.units.map SourceUnit.key = state.loaded.map Loaded.key := by
  rw [units_eq_map, List.map_map]
  rfl

section Imports

variable {state : Loading} {target : Int} {texts : Store} {file : Loaded}

theorem mem_imports_iff (hnodup : (state.loaded.map Loaded.key).Nodup) {number index : Nat} :
    (number, index) ∈ (state.unitOf file).imports ↔
      ∃ leads, (number, leads) ∈ file.targets ∧
        (state.units.map SourceUnit.key)[index]? = some leads := by
  rw [unitOf, List.mem_filterMap, map_key_units]
  constructor
  · rintro ⟨⟨statement, leads⟩, hentry, hplace⟩
    obtain ⟨found, hfound, hpair⟩ := Option.map_eq_some_iff.1 hplace
    obtain ⟨rfl, rfl⟩ := Prod.mk.inj hpair
    exact ⟨leads, hentry, (findIdx?_eq_some_iff_of_nodup hnodup).1 hfound⟩
  · rintro ⟨leads, hentry, hplace⟩
    exact ⟨(number, leads), hentry, Option.map_eq_some_iff.2
      ⟨index, (findIdx?_eq_some_iff_of_nodup hnodup).2 hplace, rfl⟩⟩

/-- A statement has an entry exactly if it leads to the file of a unit, and the entry is that
unit. -/
theorem import?_eq_some_iff (hnodup : (state.loaded.map Loaded.key).Nodup)
    (hread : file.Read target texts) {number index : Nat} :
    (state.unitOf file).import? number = some index ↔
      ∃ statement leads, file.file.statements[number]? = some statement ∧
        leadsTo? texts file.key statement = some leads ∧
        (state.units.map SourceUnit.key)[index]? = some leads := by
  have hmem (place : Nat) : (number, place) ∈ (state.unitOf file).imports ↔
      ∃ statement leads, file.file.statements[number]? = some statement ∧
        leadsTo? texts file.key statement = some leads ∧
        (state.units.map SourceUnit.key)[place]? = some leads := by
    rw [mem_imports_iff hnodup, hread.targets]
    constructor
    · rintro ⟨leads, hentry, hplace⟩
      obtain ⟨statement, hstatement, hleads⟩ := mem_targets_iff.1 hentry
      exact ⟨statement, leads, hstatement, hleads, hplace⟩
    · rintro ⟨statement, leads, hstatement, hleads, hplace⟩
      exact ⟨leads, mem_targets_iff.2 ⟨statement, hstatement, hleads⟩, hplace⟩
  rw [SourceUnit.import?, lookup_eq_some_iff_mem, hmem]
  -- A statement leads to one path at most, and a path has one unit.
  intro other hindex hother
  obtain ⟨statement, leads, hstatement, hleads, hplace⟩ := (hmem index).1 hindex
  obtain ⟨statement', leads', hstatement', hleads', hplace'⟩ := (hmem other).1 hother
  obtain rfl := Option.some.inj (hstatement.symm.trans hstatement')
  obtain rfl := Option.some.inj (hleads.symm.trans hleads')
  rw [← map_key_units] at hnodup
  exact (List.getElem?_inj (List.getElem?_eq_some_iff.1 hplace).1 hnodup).1
    (hplace.trans hplace'.symm)

theorem exists_of_import? (hnodup : (state.loaded.map Loaded.key).Nodup)
    (hread : file.Read target texts) {number index : Nat}
    (h : (state.unitOf file).import? number = some index) :
    ∃ decl other, file.file.statements[number]? = some (.importNames decl) ∧
      resolve? texts file.key decl.specifier = some other.key ∧
      state.units[index]? = some other := by
  obtain ⟨statement, leads, hstatement, hleads, hplace⟩ := (import?_eq_some_iff hnodup hread).1 h
  obtain ⟨decl, rfl, hresolve⟩ := leadsTo?_eq_some_iff.1 hleads
  rw [List.getElem?_map] at hplace
  obtain ⟨other, hother, rfl⟩ := Option.map_eq_some_iff.1 hplace
  exact ⟨decl, other, hstatement, hresolve, hother⟩

/-- When loading is done, each import that resolves has an entry. -/
theorem Advanced.exists_import? {base files : List Loaded} {roots seen : List Request}
    (h : Advanced target texts base roots state files seen [])
    (hnodup : (state.loaded.map Loaded.key).Nodup) (hfile : file ∈ files) {number : Nat}
    {decl : ImportDecl} {leads : String}
    (hstatement : file.file.statements[number]? = some (.importNames decl))
    (hresolve : resolve? texts file.key decl.specifier = some leads) :
    ∃ index, (state.unitOf file).import? number = some index := by
  have hread := h.read file hfile
  have hleads : leadsTo? texts file.key (.importNames decl) = some leads := hresolve
  have hentry : (number, leads) ∈ file.targets := by
    rw [hread.targets]
    exact mem_targets_iff.2 ⟨_, hstatement, hleads⟩
  have himported : leads ∈ texts.importedBy file.key := by
    rw [← hread.map_key_follows, Loaded.follows, List.map_map]
    exact List.mem_map_of_mem hentry
  -- All that a loaded file imports is loaded, so it has a unit.
  have hloaded : leads ∈ state.units.map SourceUnit.key := by
    rw [map_key_units, h.loaded, List.map_append]
    exact List.mem_append_right _
      (h.breadthFirst.mem_of_next (List.mem_map_of_mem hfile) himported)
  obtain ⟨index, hindex⟩ := List.mem_iff_getElem?.1 hloaded
  exact ⟨index, (import?_eq_some_iff hnodup hread).2 ⟨_, leads, hstatement, hleads, hindex⟩⟩

end Imports

theorem begun_of_handles_eq {store : Store} (h : store.handles = .empty) :
    Begun store ⟨store, []⟩ := by
  refine ⟨.refl _, fun key issued hget ↦ ?_, by simp, List.nodup_nil⟩
  rw [h, OrderedMap.get?_empty] at hget
  cases hget

theorem handleKey_defaultLibrary (store : Store) (settings : Assignment) :
    Store.handleKey (store.defaultLibrary settings) = store.defaultLibrary settings ∧
      isLibrary (store.defaultLibrary settings) = true := by
  rw [Store.defaultLibrary]
  cases store.services with
  | plainText =>
    rw [Services.libraryName]
    decide
  | language =>
    rw [Services.libraryName, Target.libraryName]
    split <;> decide

/-- The library file is the first to be loaded, if it can be read. -/
theorem exists_begun_of_readable {store : Store} {settings : Assignment}
    (hhandles : store.handles = .empty)
    (hlibrary : settings.flag "noLib" = false →
      ∃ text, store.textOf (store.defaultLibrary settings) = .ok text) :
    ∃ base, loadLibrary settings store = .ok base ∧ Begun store base := by
  cases hnoLib : settings.flag "noLib" with
  | true =>
    refine ⟨⟨store, []⟩, ?_, begun_of_handles_eq hhandles⟩
    rw [loadLibrary, hnoLib, if_pos rfl]
  | false =>
    obtain ⟨text, htext⟩ := hlibrary hnoLib
    obtain ⟨hkey, hspelled⟩ := handleKey_defaultLibrary store settings
    generalize hpath : store.defaultLibrary settings = path at htext hkey hspelled
    have hnone : store.handles.get? (Store.handleKey path) = none := by
      rw [hhandles, OrderedMap.get?_empty]
    let file := SourceFile.parse path text (Target.ofSettings settings)
    let kept : Issued :=
      ⟨store.issued, store.services.handle path text (Target.ofSettings settings)⟩
    have hload : loadLibrary settings store = .ok
        ⟨{ store with handles := OrderedMap.empty.insert path kept, issued := store.issued + 1 },
          [⟨file, path, true, []⟩]⟩ := by
      rw [loadLibrary, hnoLib, if_neg (by decide), hpath]
      dsimp only
      rw [source_of_get?_none hnone, htext, hkey, hhandles]
    refine ⟨_, hload, ⟨rfl, rfl⟩, fun key issued hget ↦ ?_, ?_, List.nodup_singleton _⟩
    · rw [OrderedMap.get?_insert, OrderedMap.get?_empty] at hget
      split at hget
      · rename_i hkey
        exact List.mem_singleton.2 hkey.symm
      · cases hget
    · exact List.forall_mem_singleton.2 ⟨rfl, hspelled⟩

theorem runs_of_begun {store : Store} {base : Loading} (h : base.Begun store)
    (roots : List String) (target : Int) :
    Runs target base (roots.map .ofRoot)
      (loadAll target (store.files.size + roots.length + 1) base (roots.map .ofRoot)) := by
  have hroots : ∀ request ∈ roots.map Request.ofRoot,
      request.key ∈ roots.map canonical ++ store.files.keys := by
    intro request hrequest
    obtain ⟨root, hroot, rfl⟩ := List.mem_map.1 hrequest
    exact List.mem_append_left _ (List.mem_map_of_mem hroot)
  have hfiles (key : String) (hkey : base.store.files.contains key = true) :
      key ∈ roots.map canonical ++ store.files.keys := by
    rw [h.same.files] at hkey
    exact List.mem_append_right _ (OrderedMap.mem_keys_of_contains hkey)
  refine runs_loadAll hroots hfiles (Nat.lt_succ_of_le ?_)
  calc (base.unloaded (roots.map canonical ++ store.files.keys)).length
      ≤ (roots.map canonical ++ store.files.keys).length := List.length_filter_le ..
    _ = store.files.size + roots.length := by
      rw [List.length_append, List.length_map, Nat.add_comm, OrderedMap.keys, List.length_map]
      rfl

end Loading

namespace Program

/-- Whether a program is made of what its roots lead to in a store. -/
structure MadeFrom (store : Store) (roots : List String) (program : Program) : Prop where
  distinct : (program.units.map SourceUnit.key).Nodup
  order : BreadthFirst (roots.map canonical) store.importedBy (program.sources.map SourceUnit.key)
  read : ∀ unit ∈ program.sources, ∃ text, store.files.get? unit.key = some text ∧
    unit.file = .parse unit.file.name text (Target.ofSettings program.settings)
  named : ∀ unit ∈ program.sources, unit.file.name =
    (roots.find? fun root ↦ canonical root = unit.key).getD (displayName unit.key)
  linked : ∀ unit ∈ program.sources, ∀ number index, unit.import? number = some index →
    ∃ decl other, unit.file.statements[number]? = some (.importNames decl) ∧
      Loading.resolve? store unit.key decl.specifier = some other.key ∧
      program.units[index]? = some other
  complete : ∀ unit ∈ program.sources, ∀ number decl leads,
    unit.file.statements[number]? = some (.importNames decl) →
    Loading.resolve? store unit.key decl.specifier = some leads → ∃ index,
      unit.import? number = some index

section MadeFrom

variable {settings : Assignment} {store : Store} {roots : List String} {base final : Loading}
  {files : List Loaded} {seen : List Request}

theorem proper_of_mem_roots (h : ∀ root ∈ roots, OfProject root) :
    ∀ request ∈ roots.map Request.ofRoot, request.Proper := by
  intro request hrequest
  obtain ⟨root, hroot, rfl⟩ := List.mem_map.1 hrequest
  exact ⟨rfl, h root hroot⟩

theorem nodup_of_advanced (hbase : base.Begun store) (hroots : ∀ root ∈ roots, OfProject root)
    (h : Loading.Advanced (Target.ofSettings settings) store base.loaded (roots.map .ofRoot) final
      files seen []) : (final.loaded.map Loaded.key).Nodup := by
  rw [h.loaded, List.map_append, List.nodup_append]
  -- A key of the library file is spelled as a library path, that of a requested file is not.
  refine ⟨hbase.nodup, h.breadthFirst.nodup, fun key hkey other hother hsame ↦ ?_⟩
  obtain ⟨library, hlibrary, rfl⟩ := List.mem_map.1 hkey
  obtain ⟨request, hrequest, rfl⟩ := List.mem_map.1 (h.mem_seen_iff.1 hother)
  have hproper := h.proper (proper_of_mem_roots hroots) (List.mem_append_left _ hrequest)
  have hfalse := hproper.isLibrary_key
  rw [← hsame, (hbase.library library hlibrary).2] at hfalse
  cases hfalse

theorem sources_of_advanced (hbase : base.Begun store)
    (h : Loading.Advanced (Target.ofSettings settings) store base.loaded (roots.map .ofRoot) final
      files seen []) :
    (final.units.filter fun unit ↦ !unit.isLibrary) = files.map final.unitOf := by
  rw [Loading.units_eq_map, h.loaded, List.map_append, List.filter_append]
  have hlibrary : ((base.loaded.map final.unitOf).filter fun unit ↦ !unit.isLibrary) = [] := by
    rw [List.filter_eq_nil_iff]
    intro unit hunit
    obtain ⟨file, hfile, rfl⟩ := List.mem_map.1 hunit
    simp [Loading.unitOf, (hbase.library file hfile).1]
  have hfiles : ((files.map final.unitOf).filter fun unit ↦ !unit.isLibrary) =
      files.map final.unitOf := by
    rw [List.filter_eq_self]
    intro unit hunit
    obtain ⟨file, hfile, rfl⟩ := List.mem_map.1 hunit
    simp [Loading.unitOf, (h.read file hfile).isLibrary]
  rw [hlibrary, hfiles, List.nil_append]

theorem madeFrom_of_advanced (hbase : base.Begun store) (hroots : ∀ root ∈ roots, OfProject root)
    (h : Loading.Advanced (Target.ofSettings settings) store base.loaded (roots.map .ofRoot) final
      files seen []) (dialect : Dialect) :
    MadeFrom store roots
      ⟨settings, final.units, Checking.check final.units settings dialect⟩ := by
  have hnodup := nodup_of_advanced hbase hroots h
  have hkeys : (roots.map Request.ofRoot).map Request.key = roots.map canonical := by
    rw [List.map_map]
    rfl
  have hsources : Program.sources
      ⟨settings, final.units, Checking.check final.units settings dialect⟩ =
        files.map final.unitOf := sources_of_advanced hbase h
  refine ⟨?_, ?_, ?_, ?_, ?_, ?_⟩
  · rw [Loading.map_key_units]
    exact hnodup
  · rw [hsources, List.map_map, ← hkeys]
    exact h.breadthFirst
  all_goals
    rw [hsources]
    intro unit hunit
    obtain ⟨file, hfile, rfl⟩ := List.mem_map.1 hunit
  · exact ⟨_, (h.read file hfile).text, (h.read file hfile).parse⟩
  · have hname := h.name_eq hfile
    simp only [List.find?_map, Option.map_map, Function.comp_def, Request.key_ofRoot,
      Request.name_ofRoot, Option.map_id'] at hname
    exact hname
  · intro number index
    exact Loading.exists_of_import? hnodup (h.read file hfile)
  · intro number decl leads
    exact h.exists_import? hnodup hfile

end MadeFrom

theorem make_eq_map {settings : Assignment} {store : Store} {base : Loading}
    (h : Loading.loadLibrary settings store = .ok base) (dialect : Dialect) (roots : List String) :
    make dialect roots settings store =
      (Loading.loadAll (Target.ofSettings settings) (store.files.size + roots.length + 1) base
        (roots.map .ofRoot)).map fun final ↦
          (⟨settings, final.units, Checking.check final.units settings dialect⟩, final.store) := by
  have hrequests : (roots.map fun root ↦ (⟨root, canonical root⟩ : Request)) =
      roots.map .ofRoot := rfl
  rw [make, h]
  dsimp only
  rw [hrequests]
  cases Loading.loadAll (Target.ofSettings settings) (store.files.size + roots.length + 1) base
    (roots.map .ofRoot) <;> rfl

/-- Loading comes to an end.  A program is made exactly if all its roots are there, and it is made
of what they lead to. -/
theorem build_ok_iff_and_madeFrom {settings : Assignment} {store : Store} {roots : List String}
    (hhandles : store.handles = .empty)
    (hlibrary : settings.flag "noLib" = false →
      ∃ text, store.textOf (store.defaultLibrary settings) = .ok text)
    (hroots : ∀ root ∈ roots, OfProject root) (dialect : Dialect) :
    (∃ base outcome, Loading.loadLibrary settings store = .ok base ∧
      Loading.Runs (Target.ofSettings settings) base (roots.map .ofRoot) outcome ∧
      make dialect roots settings store = outcome.map fun final ↦
        (⟨settings, final.units, Checking.check final.units settings dialect⟩, final.store)) ∧
    ((∃ program after, build dialect roots settings store = .ok (program, after)) ↔
      ∀ root ∈ roots, store.files.contains (canonical root) = true) ∧
    ∀ program after, build dialect roots settings store = .ok (program, after) →
      program.settings = settings ∧ program.MadeFrom store roots := by
  obtain ⟨base, hbase, hbegun⟩ := Loading.exists_begun_of_readable hhandles hlibrary
  have hruns := Loading.runs_of_begun hbegun roots (Target.ofSettings settings)
  have hmake := make_eq_map hbase dialect roots
  refine ⟨⟨base, _, hbase, hruns, hmake⟩, ?_⟩
  simp only [build_eq_ok_iff]
  have hspelled : ∀ file ∈ base.loaded, isLibrary file.key = true := fun file hfile ↦
    (hbegun.library file hfile).2
  obtain ⟨interruption, hstopped, request, hrequest, hmissing⟩ |
    ⟨final, files, seen, hfinal, hadvanced⟩ :=
      hruns.advanced hbegun.advanced hspelled (proper_of_mem_roots hroots)
  · rw [hstopped, Except.map] at hmake
    obtain ⟨root, hroot, rfl⟩ := List.mem_map.1 hrequest
    constructor
    · constructor
      · rintro ⟨program, after, hmade⟩
        rw [hmake] at hmade
        cases hmade
      · intro hall
        have hcontains := hall root hroot
        rw [← Request.key_ofRoot, hmissing] at hcontains
        cases hcontains
    · intro program after hmade
      rw [hmake] at hmade
      cases hmade
  · rw [hfinal, Except.map] at hmake
    constructor
    · refine iff_of_true ⟨_, _, hmake⟩ fun root hroot ↦ ?_
      have hrequest : Request.ofRoot root ∈ roots.map Request.ofRoot := List.mem_map_of_mem hroot
      have hcontains := hadvanced.contains_of_root hrequest
      rwa [Request.key_ofRoot] at hcontains
    · intro program after hmade
      rw [hmake] at hmade
      obtain ⟨rfl, rfl⟩ := Prod.mk.inj (Except.ok.inj hmade)
      exact ⟨rfl, madeFrom_of_advanced hbegun hroots hadvanced dialect⟩

theorem build_ok_iff_and_madeFrom_cycle :
    let store := ((Store.empty .language .bundled).addFile "a.ts"
      "import \x7b b \x7d from \"./b\";").addFile "b.ts" "import \x7b a \x7d from \"./a\";"
    ∃ program after, build ⟨3⟩ ["./a.ts", "a.ts"] .empty store = .ok (program, after) ∧
      program.MadeFrom store ["./a.ts", "a.ts"] ∧
      store.importedBy "/project/a.ts" = ["/project/b.ts"] ∧
      store.importedBy "/project/b.ts" = ["/project/a.ts"] := by
  intro store
  have hhandles : store.handles = .empty := rfl
  have hlibrary : Assignment.empty.flag "noLib" = false →
      ∃ text, store.textOf (store.defaultLibrary .empty) = .ok text :=
    fun _ ↦ ⟨Library.es5Declarations, by decide +kernel⟩
  have hroots : ∀ root ∈ ["./a.ts", "a.ts"], OfProject root := by
    simp only [List.forall_mem_cons]
    exact ⟨⟨by decide, by decide⟩, ⟨by decide, by decide⟩, by simp⟩
  obtain ⟨-, hmade, hfrom⟩ := build_ok_iff_and_madeFrom hhandles hlibrary hroots ⟨3⟩
  obtain ⟨program, after, hbuild⟩ := hmade.2 (by decide)
  refine ⟨program, after, hbuild, (hfrom program after hbuild).2, ?_, ?_⟩
  all_goals decide +kernel

end Program

end VersionSweep
