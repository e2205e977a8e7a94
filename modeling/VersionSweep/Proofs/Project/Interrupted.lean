import VersionSweep.Proofs.Project.Serving

/-!
# Interrupted loading

A loading that comes to a file that cannot be read gives no program, but what was parsed before
stays parsed: the store keeps the handles.  All but the handles of a store is as it was then, and a
failure is always one of reading.
-/

namespace VersionSweep

namespace Store

/-- Whether a store differs from another one at most in what has been parsed. -/
def ParsedFrom (after before : Store) : Prop :=
  ∃ handles issued, after = { before with handles, issued }

theorem ParsedFrom.refl (store : Store) : store.ParsedFrom store :=
  ⟨store.handles, store.issued, rfl⟩

theorem ParsedFrom.trans {after middle before : Store} (h : after.ParsedFrom middle)
    (h' : middle.ParsedFrom before) : after.ParsedFrom before := by
  obtain ⟨handles, issued, rfl⟩ := h
  obtain ⟨handles', issued', rfl⟩ := h'
  exact ⟨handles, issued, rfl⟩

theorem ParsedFrom.sameTexts {after before : Store} (h : after.ParsedFrom before) :
    after.SameTexts before := by
  obtain ⟨handles, issued, rfl⟩ := h
  exact ⟨rfl, rfl⟩

theorem ParsedFrom.outputs {after before : Store} (h : after.ParsedFrom before) :
    after.outputs = before.outputs := by
  obtain ⟨handles, issued, rfl⟩ := h
  rfl

theorem parsedFrom_of_sourceHandle {store next : Store} {path : String} {target : Int}
    {issued : Issued} (h : store.sourceHandle path target = .ok (issued, next)) :
    next.ParsedFrom store := by
  obtain ⟨-, rfl⟩ | ⟨text, -, -, -, rfl⟩ := sourceHandle_cases h
  · exact .refl next
  · exact ⟨_, _, rfl⟩

end Store

def Failure.OfReading : Failure → Prop
  | .missingVirtualFile _ => True
  | .libraryRead _ _ => True
  | _ => False

theorem Store.ofReading_of_textOf {store : Store} {path : String} {failure : Failure}
    (h : store.textOf path = .error failure) : failure.OfReading := by
  unfold textOf readLibrary at h
  split at h
  · dsimp only at h
    split at h
    · cases h
    · obtain rfl := Except.error.inj h
      trivial
  · split at h
    · cases h
    · obtain rfl := Except.error.inj h
      trivial

namespace Loading

theorem parsedFrom_of_source {store next : Store} {name : String} {target : Int}
    {file : SourceFile} (h : source store name target = .ok (file, next)) :
    next.ParsedFrom store := by
  unfold source at h
  split at h
  · cases h
  · rename_i issued kept hhandle
    have hkept := Store.parsedFrom_of_sourceHandle hhandle
    split at h
    all_goals
      obtain ⟨-, rfl⟩ := Prod.mk.inj (Except.ok.inj h)
      exact hkept

theorem ofReading_of_source {store : Store} {name : String} {target : Int} {failure : Failure}
    (h : source store name target = .error failure) : failure.OfReading := by
  unfold source at h
  split at h
  · rename_i refused hhandle
    obtain rfl := Except.error.inj h
    unfold Store.sourceHandle at hhandle
    split at hhandle
    · cases hhandle
    · split at hhandle
      · rename_i hread
        obtain rfl := Except.error.inj hhandle
        exact Store.ofReading_of_textOf hread
      · cases hhandle
  · split at h <;> cases h

theorem parsedFrom_of_load {target : Int} {state after : Loading} {request : Request}
    {more : List Request} (h : load target state request = .ok (after, more)) :
    after.store.ParsedFrom state.store := by
  unfold load at h
  split at h
  · cases h
  · rename_i file store hsource
    obtain ⟨rfl, -⟩ := Prod.mk.inj (Except.ok.inj h)
    exact parsedFrom_of_source hsource

theorem ofReading_of_load {target : Int} {state : Loading} {request : Request} {failure : Failure}
    (h : load target state request = .error failure) : failure.OfReading := by
  unfold load at h
  split at h
  · rename_i hsource
    obtain rfl := Except.error.inj h
    exact ofReading_of_source hsource
  · cases h

/-- A loading only parses, and what interrupts it is a failure to read. -/
theorem parsedFrom_loadAll (target : Int) (rounds : Nat) (state : Loading)
    (queue : List Request) :
    match loadAll target rounds state queue with
    | .error interruption =>
      interruption.store.ParsedFrom state.store ∧ interruption.failure.OfReading
    | .ok after => after.store.ParsedFrom state.store := by
  induction rounds generalizing state queue with
  | zero => exact .refl state.store
  | succ rounds ih =>
    rw [loadAll]
    cases queue.dropWhile state.has with
    | nil => exact .refl state.store
    | cons request rest =>
      dsimp only
      cases hload : load target state request with
      | error failure => exact ⟨.refl state.store, ofReading_of_load hload⟩
      | ok loaded =>
        obtain ⟨next, more⟩ := loaded
        have hnext := parsedFrom_of_load hload
        have hrest := ih next (rest ++ more)
        dsimp only
        cases hafter : loadAll target rounds next (rest ++ more) with
        | error interruption =>
          rw [hafter] at hrest
          exact ⟨hrest.1.trans hnext, hrest.2⟩
        | ok after =>
          rw [hafter] at hrest
          exact hrest.trans hnext

theorem parsedFrom_of_loadLibrary {settings : Assignment} {store : Store} {state : Loading}
    (h : loadLibrary settings store = .ok state) : state.store.ParsedFrom store := by
  unfold loadLibrary at h
  split at h
  · obtain rfl := Except.ok.inj h
    exact .refl store
  · dsimp only at h
    split at h
    · cases h
    · rename_i file next hsource
      obtain rfl := Except.ok.inj h
      exact parsedFrom_of_source hsource

theorem ofReading_of_loadLibrary {settings : Assignment} {store : Store} {failure : Failure}
    (h : loadLibrary settings store = .error failure) : failure.OfReading := by
  unfold loadLibrary at h
  split at h
  · cases h
  · dsimp only at h
    split at h
    · rename_i hsource
      obtain rfl := Except.error.inj h
      exact ofReading_of_source hsource
    · cases h

end Loading

/-- Making a program only parses, and only a file that cannot be read stops it. -/
theorem Program.parsedFrom_make (dialect : Dialect) (roots : List String) (settings : Assignment)
    (store : Store) :
    match make dialect roots settings store with
    | .error interruption => interruption.store.ParsedFrom store ∧ interruption.failure.OfReading
    | .ok (_, after) => after.ParsedFrom store := by
  unfold make
  cases hlibrary : Loading.loadLibrary settings store with
  | error failure => exact ⟨.refl store, Loading.ofReading_of_loadLibrary hlibrary⟩
  | ok state =>
    have hstate := Loading.parsedFrom_of_loadLibrary hlibrary
    have hloaded := Loading.parsedFrom_loadAll (Target.ofSettings settings)
      (store.files.size + roots.length + 1) state
      (roots.map fun root ↦ ⟨root, VirtualPath.canonical root⟩)
    dsimp only
    cases hafter : Loading.loadAll (Target.ofSettings settings)
      (store.files.size + roots.length + 1) state
      (roots.map fun root ↦ ⟨root, VirtualPath.canonical root⟩) with
    | error interruption =>
      rw [hafter] at hloaded
      exact ⟨hloaded.1.trans hstate, hloaded.2⟩
    | ok after =>
      rw [hafter] at hloaded
      exact hloaded.trans hstate

end VersionSweep
