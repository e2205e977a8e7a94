import Mathlib.Data.List.DropRight
import VersionSweep.Proofs.Project.BreadthFirst
import VersionSweep.Proofs.Project.CanonicalPath

/-!
# The history of a store

A store is what has been done to it.  Its files are the texts added last, its outputs the texts
written last, each path at the place where it came first.  For a path outside the library the handle
that is kept was made from the text that was added last, for the first request that came after.
-/

namespace VersionSweep

namespace OrderedMap

variable {α : Type}

theorem ofList_concat (pairs : List (String × α)) (pair : String × α) :
    ofList (pairs ++ [pair]) = (ofList pairs).insert pair.1 pair.2 :=
  List.foldl_concat ..

/-- A map made of pairs has the keys of the pairs, each at its first place. -/
theorem keys_ofList (pairs : List (String × α)) :
    (ofList pairs).keys = (pairs.map Prod.fst).eraseDups := by
  induction pairs using List.reverseRecOn with
  | nil => rfl
  | append_singleton pairs pair ih =>
    rw [ofList_concat, keys_insert, ih, List.map_append, List.map_singleton, eraseDups_concat]
    simp only [List.mem_eraseDups]

/-- A map made of pairs gives a key its last value. -/
theorem get?_ofList (pairs : List (String × α)) (key : String) :
    (ofList pairs).get? key = pairs.reverse.lookup key := by
  induction pairs using List.reverseRecOn with
  | nil => rfl
  | append_singleton pairs pair ih =>
    rw [ofList_concat, get?_insert, ih, List.reverse_append, List.reverse_singleton,
      List.singleton_append, List.lookup_cons]
    by_cases h : pair.1 = key
    · simp [h]
    · have h' : (key == pair.1) = false := beq_eq_false_iff_ne.2 fun heq ↦ h heq.symm
      simp [h, h']

end OrderedMap

@[simp] theorem Services.name_handle (services : Services) (name text : String) (target : Int) :
    (services.handle name text target).name = name := by
  cases services <;> rfl

@[simp] theorem Services.text_handle (services : Services) (name text : String) (target : Int) :
    (services.handle name text target).text = text := by
  cases services <;> rfl

namespace Store

inductive Operation where
  | add (path text : String)
  | read (path : String)
  | lookFor (path : String)
  | request (path : String) (target : Int)
  | put (path text : String)

namespace Operation

def added? : Operation → Option (String × String)
  | add path text => some (VirtualPath.canonical path, text)
  | _ => none

def written? : Operation → Option (String × String)
  | put path text => some (path, text)
  | _ => none

def addsTo (key : String) (operation : Operation) : Bool :=
  operation.added?.any fun pair ↦ pair.1 = key

/-- The spelling, outside the library, and the language level that an operation requests the file at
a canonical path with. -/
def requested? (key : String) : Operation → Option (String × Int)
  | request path target =>
    if VirtualPath.isLibrary path = false ∧ VirtualPath.canonical path = key then
      some (path, target)
    else none
  | _ => none

end Operation

def perform (store : Store) : Operation → Store
  | .add path text => store.addFile path text
  | .read _ => store
  | .lookFor _ => store
  | .request path target =>
    match store.sourceHandle path target with
    | .ok (_, store) => store
    | .error _ => store
  | .put path text => store.putOutput path text

def performAll (store : Store) (operations : List Operation) : Store :=
  operations.foldl perform store

def ofHistory (services : Services) (library : Library) (history : List Operation) : Store :=
  (empty services library).performAll history

def lastText? (history : List Operation) (key : String) : Option String :=
  (history.filterMap Operation.added?).reverse.lookup key

/-- The first request for the file at a canonical path since a text was added there. -/
def firstRequest? (history : List Operation) (key : String) : Option (String × Int) :=
  ((history.rtakeWhile fun operation ↦ !operation.addsTo key).filterMap
    (Operation.requested? key)).head?

variable {store : Store} {services : Services} {library : Library}

theorem ofHistory_concat (history : List Operation) (operation : Operation) :
    ofHistory services library (history ++ [operation]) =
      (ofHistory services library history).perform operation :=
  List.foldl_concat ..

/-- A request leaves a store as it is if a handle is kept for the path or the path has no text, and
keeps a new handle if not. -/
theorem perform_request_cases (store : Store) (path : String) (target : Int) :
    (store.perform (.request path target) = store ∧
      ((∃ issued, store.handles.get? (handleKey path) = some issued) ∨
        ∃ failure, store.textOf path = .error failure)) ∨
    ∃ text, store.handles.get? (handleKey path) = none ∧ store.textOf path = .ok text ∧
      store.perform (.request path target) = { store with
        handles := store.handles.insert (handleKey path)
          ⟨store.issued, store.services.handle path text target⟩,
        issued := store.issued + 1 } := by
  cases hkept : store.handles.get? (handleKey path) with
  | some issued => exact .inl ⟨by simp only [perform, sourceHandle, hkept], .inl ⟨issued, rfl⟩⟩
  | none =>
    cases htext : store.textOf path with
    | error failure =>
      exact .inl ⟨by simp only [perform, sourceHandle, hkept, htext], .inr ⟨failure, rfl⟩⟩
    | ok text => exact .inr ⟨text, rfl, rfl, by simp only [perform, sourceHandle, hkept, htext]⟩

theorem files_perform (store : Store) (operation : Operation) :
    (store.perform operation).files =
      match operation.added? with
      | some pair => store.files.insert pair.1 pair.2
      | none => store.files := by
  cases operation with
  | request path target =>
    rcases store.perform_request_cases path target with ⟨h, -⟩ | ⟨text, -, -, h⟩ <;> rw [h] <;> rfl
  | _ => rfl

theorem outputs_perform (store : Store) (operation : Operation) :
    (store.perform operation).outputs =
      match operation.written? with
      | some pair => store.outputs.insert pair.1 pair.2
      | none => store.outputs := by
  cases operation with
  | request path target =>
    rcases store.perform_request_cases path target with ⟨h, -⟩ | ⟨text, -, -, h⟩ <;> rw [h] <;> rfl
  | _ => rfl

theorem services_perform (store : Store) (operation : Operation) :
    (store.perform operation).services = store.services := by
  cases operation with
  | request path target =>
    rcases store.perform_request_cases path target with ⟨h, -⟩ | ⟨text, -, -, h⟩ <;> rw [h]
  | _ => rfl

theorem library_perform (store : Store) (operation : Operation) :
    (store.perform operation).library = store.library := by
  cases operation with
  | request path target =>
    rcases store.perform_request_cases path target with ⟨h, -⟩ | ⟨text, -, -, h⟩ <;> rw [h]
  | _ => rfl

theorem services_ofHistory (history : List Operation) :
    (ofHistory services library history).services = services := by
  induction history using List.reverseRecOn with
  | nil => rfl
  | append_singleton history operation ih => rw [ofHistory_concat, services_perform, ih]

theorem library_ofHistory (history : List Operation) :
    (ofHistory services library history).library = library := by
  induction history using List.reverseRecOn with
  | nil => rfl
  | append_singleton history operation ih => rw [ofHistory_concat, library_perform, ih]

/-- A map of the store that each operation adds a pair to, or leaves, is the map of these pairs. -/
theorem eq_ofList_of_perform {map : Store → OrderedMap String}
    {pair? : Operation → Option (String × String)}
    (hempty : map (empty services library) = .empty)
    (hstep : ∀ store operation, map (store.perform operation) =
      match pair? operation with
      | some pair => (map store).insert pair.1 pair.2
      | none => map store)
    (history : List Operation) :
    map (ofHistory services library history) = .ofList (history.filterMap pair?) := by
  induction history using List.reverseRecOn with
  | nil => exact hempty
  | append_singleton history operation ih =>
    rw [ofHistory_concat, hstep, ih, List.filterMap_append]
    cases hpair : pair? operation with
    | none => simp [hpair]
    | some pair => simp [hpair, OrderedMap.ofList_concat]

theorem files_ofHistory (history : List Operation) :
    (ofHistory services library history).files =
      .ofList (history.filterMap Operation.added?) :=
  eq_ofList_of_perform rfl files_perform history

theorem outputs_ofHistory (history : List Operation) :
    (ofHistory services library history).outputs =
      .ofList (history.filterMap Operation.written?) :=
  eq_ofList_of_perform rfl outputs_perform history

theorem get?_files_ofHistory (history : List Operation) (key : String) :
    (ofHistory services library history).files.get? key = lastText? history key := by
  rw [files_ofHistory, OrderedMap.get?_ofList, lastText?]

end Store

end VersionSweep
