import VersionSweep.Proofs.Project.Serving

/-!
# The rounds of loading

Loading takes requests off the front of a queue, passes over those for loaded files, and puts what a
new file imports at the end.  As it is written it gives up after a number of rounds.  `Runs` tells
what it comes to without such a bound.  It comes to an end, cyclic imports or not: each round loads
a file that is a root or has a text, and none of these is loaded twice.
-/

namespace VersionSweep

open VirtualPath

namespace Loading

variable {target : Int} {store next : Store}

def leadsTo? (store : Store) (key : String) : Statement → Option String
  | .importNames decl => resolve? store key decl.specifier
  | _ => none

theorem leadsTo?_eq_some_iff {key leads : String} {statement : Statement} :
    leadsTo? store key statement = some leads ↔
      ∃ decl, statement = .importNames decl ∧ resolve? store key decl.specifier = some leads := by
  cases statement <;> simp [leadsTo?]

/-- Where imports lead depends on which files there are, and on nothing else in a store. -/
theorem leadsTo?_of_sameTexts (h : store.SameTexts next) : leadsTo? store = leadsTo? next := by
  funext key statement
  cases statement <;> simp only [leadsTo?, resolve?, Store.fileExists, h.files]

theorem targets_eq_filterMap (store : Store) (key : String) (file : SourceFile) :
    targets store key file = file.statements.zipIdx.filterMap fun entry ↦
      (leadsTo? store key entry.1).map fun leads ↦ (entry.2, leads) := by
  refine congrArg (List.filterMap · _) (funext fun entry ↦ ?_)
  obtain ⟨statement, number⟩ := entry
  cases statement <;> rfl

theorem map_snd_targets (store : Store) (key : String) (file : SourceFile) :
    (targets store key file).map Prod.snd = file.statements.filterMap (leadsTo? store key) := by
  rw [targets_eq_filterMap, List.map_filterMap]
  conv_rhs => rw [← List.zipIdx_map_fst 0 file.statements, List.filterMap_map]
  refine congrArg (List.filterMap · _) (funext fun entry ↦ ?_)
  simp [Option.map_map, Function.comp_def]

theorem mem_targets_iff {key leads : String} {file : SourceFile} {number : Nat} :
    (number, leads) ∈ targets store key file ↔
      ∃ statement, file.statements[number]? = some statement ∧
        leadsTo? store key statement = some leads := by
  rw [targets_eq_filterMap, List.mem_filterMap]
  constructor
  · rintro ⟨⟨statement, position⟩, hmem, hleads⟩
    obtain ⟨found, hfound, hpair⟩ := Option.map_eq_some_iff.1 hleads
    obtain ⟨rfl, rfl⟩ := Prod.mk.inj hpair
    exact ⟨statement, List.mk_mem_zipIdx_iff_getElem?.1 hmem, hfound⟩
  · rintro ⟨statement, hstatement, hleads⟩
    refine ⟨(statement, number), List.mk_mem_zipIdx_iff_getElem?.2 hstatement, ?_⟩
    rw [hleads]
    rfl

/-- A file that no handle is kept for is parsed under the name that it is asked for by. -/
theorem source_of_get?_none {name : String}
    (h : store.handles.get? (Store.handleKey name) = none) :
    source store name target =
      match store.textOf name with
      | .error failure => .error failure
      | .ok text =>
        .ok (SourceFile.parse name text target, { store with
          handles := store.handles.insert (Store.handleKey name)
            ⟨store.issued, store.services.handle name text target⟩,
          issued := store.issued + 1 }) := by
  unfold source Store.sourceHandle
  rw [h]
  cases store.textOf name with
  | error failure => rfl
  | ok text => cases store.services <;> rfl

theorem sameTexts_source {name : String} {file : SourceFile}
    (h : source store name target = .ok (file, next)) : next.SameTexts store := by
  unfold source at h
  split at h
  · cases h
  · rename_i issued kept hhandle
    have hkept : kept.SameTexts store := by
      obtain ⟨-, rfl⟩ | ⟨text, -, -, -, rfl⟩ := Store.sourceHandle_cases hhandle
      · exact ⟨rfl, rfl⟩
      · exact ⟨rfl, rfl⟩
    split at h
    all_goals
      obtain ⟨-, rfl⟩ := Prod.mk.inj (Except.ok.inj h)
      exact hkept

end Loading

def Loaded.follows (file : Loaded) : List Request :=
  file.targets.map fun entry ↦ ⟨displayName entry.2, entry.2⟩

namespace Loading

variable {target : Int} {store next : Store} {state after : Loading} {queue : List Request}
  {outcome : Except Interruption Loading}

theorem load_eq_ok_iff {request : Request} {more : List Request} :
    load target state request = .ok (after, more) ↔
      ∃ file, source state.store request.name target = .ok (file, after.store) ∧
        let loaded : Loaded := ⟨file, request.key, false, targets after.store request.key file⟩
        after.loaded = state.loaded ++ [loaded] ∧ more = loaded.follows := by
  obtain ⟨kept, files⟩ := after
  unfold load
  cases source state.store request.name target with
  | error failure => simp
  | ok found =>
    obtain ⟨file, store⟩ := found
    simp only [Except.ok.injEq, Prod.mk.injEq, Loading.mk.injEq]
    constructor
    · rintro ⟨⟨rfl, rfl⟩, rfl⟩
      exact ⟨file, ⟨rfl, rfl⟩, rfl, rfl⟩
    · rintro ⟨_, ⟨rfl, rfl⟩, rfl, rfl⟩
      exact ⟨⟨rfl, rfl⟩, rfl⟩

theorem sameTexts_load {request : Request} {more : List Request}
    (h : load target state request = .ok (after, more)) : after.store.SameTexts state.store := by
  obtain ⟨file, hsource, -⟩ := load_eq_ok_iff.1 h
  exact sameTexts_source hsource

/-- What a new file imports is requested by its canonical path, and is there. -/
theorem found_of_mem_targets {key : String} {file : SourceFile} {entry : Nat × String}
    (h : entry ∈ targets store key file) :
    canonical entry.2 = entry.2 ∧ isLibrary entry.2 = false ∧
      store.files.contains entry.2 = true := by
  obtain ⟨statement, -, hleads⟩ := mem_targets_iff.1 h
  obtain ⟨decl, -, hresolve⟩ := leadsTo?_eq_some_iff.1 hleads
  exact found_of_resolve? hresolve

/-- The shortened name of what a file imports leads to it. -/
theorem leads_of_mem_targets {key : String} {file : SourceFile} {entry : Nat × String}
    (h : entry ∈ targets store key file) :
    canonical (displayName entry.2) = entry.2 ∧ OfProject (displayName entry.2) := by
  obtain ⟨hcanonical, hlibrary, -⟩ := found_of_mem_targets h
  rw [← hcanonical] at hlibrary ⊢
  exact ⟨canonical_displayName_canonical _, ofProject_displayName_canonical hlibrary⟩

theorem contains_of_mem_load {request other : Request} {more : List Request}
    (h : load target state request = .ok (after, more)) (hother : other ∈ more) :
    state.store.files.contains other.key = true := by
  obtain ⟨file, -, -, rfl⟩ := load_eq_ok_iff.1 h
  obtain ⟨entry, hentry, rfl⟩ := List.mem_map.1 hother
  rw [← (sameTexts_load h).files]
  exact (found_of_mem_targets hentry).2.2

theorem has_iff {request : Request} :
    state.has request = true ↔ request.key ∈ state.loaded.map Loaded.key := by
  simp [has, List.mem_map]

/-- What loading comes to from a state and a queue, however many rounds it takes. -/
inductive Runs (target : Int) : Loading → List Request → Except Interruption Loading → Prop
  | done {state : Loading} : Runs target state [] (.ok state)
  | skip {state : Loading} {request : Request} {queue : List Request}
      {outcome : Except Interruption Loading} : state.has request = true →
      Runs target state queue outcome → Runs target state (request :: queue) outcome
  | fail {state : Loading} {request : Request} {queue : List Request} {failure : Failure} :
      state.has request = false → load target state request = .error failure →
      Runs target state (request :: queue) (.error ⟨failure, state.store⟩)
  | step {state after : Loading} {request : Request} {queue more : List Request}
      {outcome : Except Interruption Loading} : state.has request = false →
      load target state request = .ok (after, more) →
      Runs target after (queue ++ more) outcome → Runs target state (request :: queue) outcome

theorem Runs.of_dropWhile (h : Runs target state (queue.dropWhile state.has) outcome) :
    Runs target state queue outcome := by
  induction queue with
  | nil => exact h
  | cons request rest ih =>
    rw [List.dropWhile_cons] at h
    split at h
    · rename_i hhas
      exact .skip hhas (ih h)
    · exact h

def unloaded (state : Loading) (keys : List String) : List String :=
  keys.filter fun key ↦ key ∉ state.loaded.map Loaded.key

theorem length_unloaded_lt {request : Request} {more : List Request} {keys : List String}
    (hkey : request.key ∈ keys) (hnew : state.has request = false)
    (hload : load target state request = .ok (after, more)) :
    (after.unloaded keys).length < (state.unloaded keys).length := by
  obtain ⟨file, -, hloaded, -⟩ := load_eq_ok_iff.1 hload
  have hrest : after.unloaded keys =
      (state.unloaded keys).filter fun key ↦ key ≠ request.key := by
    rw [unloaded, unloaded, List.filter_filter]
    refine List.filter_congr fun key _ ↦ Bool.eq_iff_iff.2 ?_
    simp only [hloaded, Bool.and_eq_true, decide_eq_true_iff, List.map_append, List.mem_append,
      List.map_singleton, List.mem_singleton, not_or, and_comm]
  have hmem : request.key ∈ state.unloaded keys := by
    have hunloaded : request.key ∉ state.loaded.map Loaded.key := by
      rw [← has_iff, hnew]
      decide
    exact List.mem_filter.2 ⟨hkey, decide_eq_true hunloaded⟩
  rw [hrest, List.length_filter_lt_length_iff_exists]
  exact ⟨request.key, hmem, by simp⟩

/-- With more rounds than files that could be loaded, loading comes to its end. -/
theorem runs_loadAll {rounds : Nat} {keys : List String}
    (hqueue : ∀ request ∈ queue, request.key ∈ keys)
    (hfiles : ∀ key, state.store.files.contains key = true → key ∈ keys)
    (hrounds : (state.unloaded keys).length < rounds) :
    Runs target state queue (loadAll target rounds state queue) := by
  induction rounds generalizing state queue with
  | zero => exact absurd hrounds (Nat.not_lt_zero _)
  | succ rounds ih =>
    rw [loadAll]
    refine .of_dropWhile ?_
    split
    · rename_i hdrop
      rw [hdrop]
      exact .done
    · rename_i request rest hdrop
      rw [hdrop]
      obtain ⟨hnew, hmem⟩ := has_eq_false_of_dropWhile hdrop
      split
      · rename_i failure hload
        exact .fail hnew hload
      · rename_i after more hload
        refine .step hnew hload (ih ?_ ?_ ?_)
        · intro other hother
          rcases List.mem_append.1 hother with hother | hother
          · exact hqueue other (hmem other (List.mem_cons_of_mem _ hother))
          · exact hfiles other.key (contains_of_mem_load hload hother)
        · intro key hkey
          rw [(sameTexts_load hload).files] at hkey
          exact hfiles key hkey
        -- One path fewer is without a file now, so one round fewer is enough.
        · have hlt := length_unloaded_lt (hqueue request (hmem request (List.mem_cons_self ..)))
            hnew hload
          omega

end Loading

end VersionSweep
