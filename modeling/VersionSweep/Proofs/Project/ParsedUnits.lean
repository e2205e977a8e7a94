import VersionSweep.Proofs.Project.History
import VersionSweep.Proofs.Project.Serving

/-!
# Units are what parsing makes of their texts

Whatever has been done to a store and whatever it hands out, each unit of a program is the file that
parsing makes of the unit's own text.  So units with the same text have the same statements, in
whatever programs and under whatever names they are.  No import of a program leads to the library.
-/

namespace VersionSweep

def SourceFile.Parsed (file : SourceFile) : Prop :=
  ∃ target, file = .parse file.name file.text target

theorem SourceFile.parsed_parse (name text : String) (target : Int) :
    (parse name text target).Parsed :=
  ⟨target, rfl⟩

/-- Neither the name nor the language level has a part in how a text is read. -/
theorem SourceFile.Parsed.statements_eq {file other : SourceFile} (h : file.Parsed)
    (hother : other.Parsed) (htext : file.text = other.text) :
    file.statements = other.statements := by
  obtain ⟨target, heq⟩ := h
  obtain ⟨target', heq'⟩ := hother
  rw [heq, heq', htext]
  rfl

theorem Services.parsed_handle {services : Services} {name text : String} {target : Int}
    {file : SourceFile} (h : services.handle name text target = .parsed file) : file.Parsed := by
  cases services with
  | plainText => cases h
  | language =>
    obtain rfl := Handle.parsed.inj h
    exact SourceFile.parsed_parse name text target

namespace Store

def KeepsParsed (store : Store) : Prop :=
  ∀ key issued file, store.handles.get? key = some issued → issued.handle = .parsed file →
    file.Parsed

variable {store next : Store}

theorem KeepsParsed.addFile (h : store.KeepsParsed) (path text : String) :
    (store.addFile path text).KeepsParsed := by
  intro key issued file hget hfile
  rw [Store.addFile, OrderedMap.get?_erase] at hget
  split at hget
  · cases hget
  · exact h key issued file hget hfile

theorem KeepsParsed.sourceHandle (h : store.KeepsParsed) {path : String} {target : Int}
    {issued : Issued} (hissued : store.sourceHandle path target = .ok (issued, next)) :
    next.KeepsParsed ∧ ∀ file, issued.handle = .parsed file → file.Parsed := by
  obtain ⟨hkept, rfl⟩ | ⟨text, -, -, rfl, rfl⟩ := sourceHandle_cases hissued
  · exact ⟨h, fun file hfile ↦ h _ _ file hkept hfile⟩
  · constructor
    · intro key kept file hget hfile
      rw [OrderedMap.get?_insert] at hget
      split at hget
      · obtain rfl := Option.some.inj hget
        exact Services.parsed_handle hfile
      · exact h key kept file hget hfile
    · exact fun file hfile ↦ Services.parsed_handle hfile

theorem KeepsParsed.perform (h : store.KeepsParsed) (operation : Operation) :
    (store.perform operation).KeepsParsed := by
  cases operation with
  | add path text => exact h.addFile path text
  | read path => exact h
  | lookFor path => exact h
  | put path text => exact h
  | request path target =>
    rw [Store.perform]
    split
    · rename_i hissued
      exact (h.sourceHandle hissued).1
    · exact h

theorem keepsParsed_ofHistory (services : Services) (library : Library)
    (history : List Operation) : (ofHistory services library history).KeepsParsed := by
  induction history using List.reverseRecOn with
  | nil =>
    intro key issued file hget
    cases hget
  | append_singleton history operation ih =>
    rw [ofHistory_concat]
    exact ih.perform operation

end Store

namespace Loading

/-- What holds of all loaded files, and of those that may still be: they are what parsing makes of
their texts, and the paths of library files are none that imports lead to. -/
structure WellMade (state : Loading) : Prop where
  store : state.store.KeepsParsed
  parsed : ∀ file ∈ state.loaded, file.file.Parsed
  library : ∀ file ∈ state.loaded, file.isLibrary = true → VirtualPath.isLibrary file.key = true
  targets : ∀ file ∈ state.loaded, ∀ entry ∈ file.targets, VirtualPath.isLibrary entry.2 = false

variable {state after : Loading} {target : Int}

theorem parsed_of_source {store next : Store} (h : store.KeepsParsed) {name : String}
    {file : SourceFile} (hsource : source store name target = .ok (file, next)) :
    file.Parsed ∧ next.KeepsParsed := by
  unfold source at hsource
  split at hsource
  · cases hsource
  rename_i issued store' hissued
  obtain ⟨hkeeps, hparsed⟩ := h.sourceHandle hissued
  split at hsource
  · rename_i kept hkept
    obtain ⟨rfl, rfl⟩ := Prod.mk.inj (Except.ok.inj hsource)
    exact ⟨hparsed kept hkept, hkeeps⟩
  · obtain ⟨rfl, rfl⟩ := Prod.mk.inj (Except.ok.inj hsource)
    exact ⟨SourceFile.parsed_parse .., hkeeps⟩

theorem isLibrary_eq_false_of_mem_targets {store : Store} {key : String} {file : SourceFile}
    {entry : ℕ × String} (h : entry ∈ Loading.targets store key file) :
    VirtualPath.isLibrary entry.2 = false := by
  obtain ⟨⟨statement, number⟩, -, hentry⟩ := List.mem_filterMap.1 h
  cases statement with
  | var decl => cases hentry
  | expr value span => cases hentry
  | importNames decl =>
    obtain ⟨path, hpath, rfl⟩ := Option.map_eq_some_iff.1 hentry
    exact (found_of_resolve? hpath).2.1

theorem WellMade.load (h : state.WellMade) {request : Request} {more : List Request}
    (hload : load target state request = .ok (after, more)) : after.WellMade := by
  unfold Loading.load at hload
  split at hload
  · cases hload
  rename_i file store hsource
  obtain ⟨rfl, -⟩ := Prod.mk.inj (Except.ok.inj hload)
  obtain ⟨hparsed, hkeeps⟩ := parsed_of_source h.store hsource
  have hmem {P : Loaded → Prop} (hold : ∀ other ∈ state.loaded, P other)
      (hnew : P ⟨file, request.key, false, Loading.targets store request.key file⟩) :
      ∀ other ∈ state.loaded ++ [⟨file, request.key, false,
        Loading.targets store request.key file⟩], P other := by
    intro other hother
    rcases List.mem_append.1 hother with hother | hother
    · exact hold other hother
    · exact List.mem_singleton.1 hother ▸ hnew
  constructor
  · exact hkeeps
  · exact hmem h.parsed hparsed
  · exact hmem h.library fun hlibrary ↦ by cases hlibrary
  · exact hmem h.targets fun entry hentry ↦ isLibrary_eq_false_of_mem_targets hentry

theorem WellMade.loadAll {rounds : ℕ} (h : state.WellMade) {queue : List Request}
    (hload : loadAll target rounds state queue = .ok after) : after.WellMade := by
  induction rounds generalizing state queue with
  | zero =>
    obtain rfl := Except.ok.inj hload
    exact h
  | succ rounds ih =>
    rw [Loading.loadAll] at hload
    split at hload
    · obtain rfl := Except.ok.inj hload
      exact h
    · split at hload
      · cases hload
      · rename_i hstep
        exact ih (h.load hstep) hload

theorem wellMade_loadLibrary {store : Store} (h : store.KeepsParsed) {settings : Assignment}
    (hload : loadLibrary settings store = .ok after) : after.WellMade := by
  unfold loadLibrary at hload
  split at hload
  · obtain rfl := Except.ok.inj hload
    constructor
    · exact h
    all_goals exact fun _ hfile ↦ (List.not_mem_nil hfile).elim
  · dsimp only at hload
    split at hload
    · cases hload
    rename_i file next hsource
    obtain rfl := Except.ok.inj hload
    obtain ⟨hparsed, hkeeps⟩ := parsed_of_source h hsource
    have hpath : VirtualPath.isLibrary (store.defaultLibrary settings) = true := by
      rw [Store.defaultLibrary]
      cases store.services with
      | plainText =>
        rw [Services.libraryName]
        decide
      | language =>
        rw [Services.libraryName, Target.libraryName]
        split <;> decide
    constructor
    · exact hkeeps
    · exact fun other hother ↦ List.mem_singleton.1 hother ▸ hparsed
    · exact fun other hother _ ↦ List.mem_singleton.1 hother ▸ hpath
    · intro other hother entry hentry
      rw [List.mem_singleton.1 hother] at hentry
      exact (List.not_mem_nil hentry).elim

/-- An import leads to a unit that is not the library. -/
theorem WellMade.isLibrary_eq_false (h : state.WellMade) {unit found : SourceUnit}
    (hunit : unit ∈ state.units) {statement index : ℕ}
    (himport : unit.import? statement = some index) (hfound : state.units[index]? = some found) :
    found.isLibrary = false := by
  obtain ⟨file, hfile, rfl⟩ := List.mem_map.1 hunit
  obtain ⟨before, later, hsplit, -⟩ := List.lookup_eq_some_iff.1 himport
  have hentry : (statement, index) ∈ before ++ (statement, index) :: later := by simp
  rw [← hsplit] at hentry
  obtain ⟨entry, htarget, hindex⟩ := List.mem_filterMap.1 hentry
  obtain ⟨place, hplace, heq⟩ := Option.map_eq_some_iff.1 hindex
  obtain ⟨-, rfl⟩ := Prod.mk.inj heq
  obtain ⟨hlt, hkey, -⟩ := List.findIdx?_eq_some_iff_getElem.1 hplace
  rw [Loading.units, List.getElem?_map, List.getElem?_eq_getElem hlt] at hfound
  obtain rfl := Option.some.inj hfound
  by_contra hlibrary
  have hpath := h.library _ (List.getElem_mem hlt) (by simpa using hlibrary)
  rw [of_decide_eq_true hkey, h.targets file hfile entry htarget] at hpath
  cases hpath

end Loading

theorem exists_ok_of_any {α β : Type} {result : Except α β} {p : β → Bool}
    (h : result.toOption.any p = true) : ∃ value, result = .ok value ∧ p value = true := by
  cases result with
  | error failure => cases h
  | ok value => exact ⟨value, rfl, h⟩

/-- A program that was made under some settings: it is checked as it stands, its units are what
parsing makes of their texts, and its imports do not lead to the library. -/
structure Program.Built (dialect : Dialect) (settings : Assignment) (program : Program) : Prop where
  settings_eq : program.settings = settings
  checked : program.checked = Checking.check program.units settings dialect
  parsed : ∀ unit ∈ program.units, unit.file.Parsed
  isLibrary : ∀ unit ∈ program.units, ∀ statement index, unit.import? statement = some index →
    ∀ found, program.units[index]? = some found → found.isLibrary = false

theorem Program.built_of_build {store after : Store} (h : store.KeepsParsed) {dialect : Dialect}
    {roots : List String} {settings : Assignment} {program : Program}
    (hbuild : build dialect roots settings store = .ok (program, after)) :
    program.Built dialect settings := by
  rw [build_eq_ok_iff] at hbuild
  unfold make at hbuild
  split at hbuild
  · cases hbuild
  rename_i library hlibrary
  dsimp only at hbuild
  split at hbuild
  · cases hbuild
  rename_i loading hloading
  obtain ⟨rfl, -⟩ := Prod.mk.inj (Except.ok.inj hbuild)
  have hmade := (Loading.wellMade_loadLibrary h hlibrary).loadAll hloading
  constructor
  · rfl
  · rfl
  · intro unit hunit
    obtain ⟨file, hfile, rfl⟩ := List.mem_map.1 hunit
    exact hmade.parsed file hfile
  · exact fun unit hunit _ _ himport _ hfound ↦ hmade.isLibrary_eq_false hunit himport hfound

end VersionSweep
