import VersionSweep.Registry

/-!
# Registered versions

A registry holds what was registered, in order, each version labelled with its key and no key twice.
A request for a key that is taken is refused, and the version that was there first stays.  So a
sweep from a known key runs each version once, and whoever asks for an unknown key is told the known
ones.
-/

namespace VersionSweep

structure Registration where
  key : String
  compiler : Compiler
  library : Library

namespace Registration

def version (request : Registration) : Version :=
  ⟨request.key, request.compiler, request.library⟩

def entry (request : Registration) : String × Version :=
  (request.key, request.version)

def answer (request : Registration) (registry : Registry) : Except Failure Registry :=
  registry.register request.key request.compiler request.library

end Registration

namespace Registry

def attempt (registry : Registry) (request : Registration) : Registry :=
  match request.answer registry with
  | .ok registered => registered
  | .error _ => registry

def registerAll (registry : Registry) (requests : List Registration) : Registry :=
  requests.foldl attempt registry

def granted (registry : Registry) : List Registration → List Registration
  | [] => []
  | request :: rest =>
    match request.answer registry with
    | .ok registered => request :: registered.granted rest
    | .error _ => registry.granted rest

def Labelled (registry : Registry) : Prop :=
  ∀ entry ∈ registry.versions.entries, entry.2.label = entry.1

variable {registry : Registry} {request : Registration} {key : String}

theorem answer_of_mem (h : request.key ∈ registry.keys) :
    request.answer registry = .error (.duplicateVersion request.key) :=
  if_pos (OrderedMap.contains_iff_mem_keys.2 h)

theorem answer_of_not_mem (h : request.key ∉ registry.keys) :
    request.answer registry = .ok ⟨registry.versions.insert request.key request.version⟩ :=
  if_neg fun hcontains ↦ h (OrderedMap.contains_iff_mem_keys.1 hcontains)

/-- What is registered next comes in behind all others. -/
theorem exists_answer_of_not_mem (h : request.key ∉ registry.keys) :
    ∃ registered, request.answer registry = .ok registered ∧
      registered.versions.entries = registry.versions.entries ++ [request.entry] :=
  ⟨_, answer_of_not_mem h, OrderedMap.entries_insert_of_not_mem _ h⟩

/-- One step: a registry gains an entry if the request succeeds and stays the same if not. -/
theorem attempt_and_granted_cons (registry : Registry) (request : Registration)
    (rest : List Registration) :
    ∃ entries : List Registration,
      registry.granted (request :: rest) = entries ++ (registry.attempt request).granted rest ∧
      (registry.attempt request).versions.entries =
        registry.versions.entries ++ entries.map Registration.entry := by
  by_cases h : request.key ∈ registry.keys
  · refine ⟨[], ?_, ?_⟩
    · rw [granted, attempt, answer_of_mem h, List.nil_append]
    · rw [attempt, answer_of_mem h, List.map_nil, List.append_nil]
  · obtain ⟨registered, hanswer, hentries⟩ := exists_answer_of_not_mem h
    refine ⟨[request], ?_, ?_⟩
    · rw [granted, attempt, hanswer, List.singleton_append]
    · rw [attempt, hanswer, hentries, List.map_singleton]

/-- The whole run: what was there before, and then the requests that succeeded. -/
theorem entries_registerAll (registry : Registry) (requests : List Registration) :
    (registry.registerAll requests).versions.entries =
      registry.versions.entries ++ (registry.granted requests).map Registration.entry := by
  induction requests generalizing registry with
  | nil => rw [granted, List.map_nil, List.append_nil, registerAll, List.foldl_nil]
  | cons request rest ih =>
    obtain ⟨entries, hgranted, hattempt⟩ := attempt_and_granted_cons registry request rest
    have hrest := ih (registry.attempt request)
    rw [hattempt, List.append_assoc, ← List.map_append, ← hgranted] at hrest
    exact hrest

theorem keys_registerAll (registry : Registry) (requests : List Registration) :
    (registry.registerAll requests).keys =
      registry.keys ++ (registry.granted requests).map Registration.key := by
  rw [keys, OrderedMap.keys, entries_registerAll, List.map_append, List.map_map]
  rfl

theorem all_registerAll (registry : Registry) (requests : List Registration) :
    (registry.registerAll requests).all =
      registry.all ++ (registry.granted requests).map Registration.version := by
  rw [all, OrderedMap.values, entries_registerAll, List.map_append, List.map_map]
  rfl

theorem labelled_empty : Labelled .empty :=
  fun _ h ↦ absurd h List.not_mem_nil

theorem labelled_standard (library : Library) : (standard library).Labelled := by
  intro entry hentry
  obtain rfl | hentry := OrderedMap.eq_or_mem_of_mem_insert hentry
  · rfl
  obtain rfl | hentry := OrderedMap.eq_or_mem_of_mem_insert hentry
  · rfl
  obtain rfl | hentry := OrderedMap.eq_or_mem_of_mem_insert hentry
  · rfl
  · exact absurd hentry List.not_mem_nil

theorem Labelled.registerAll (h : registry.Labelled) (requests : List Registration) :
    (registry.registerAll requests).Labelled := by
  intro entry hentry
  rw [entries_registerAll, List.mem_append] at hentry
  obtain hentry | hentry := hentry
  · exact h entry hentry
  · obtain ⟨request, -, rfl⟩ := List.mem_map.1 hentry
    rfl

theorem Labelled.map_label_all (h : registry.Labelled) :
    registry.all.map Version.label = registry.keys := by
  rw [all, OrderedMap.values, List.map_map, keys, OrderedMap.keys]
  exact List.map_congr_left h

theorem lookup_of_mem {version : Version} (h : (key, version) ∈ registry.versions.entries) :
    registry.lookup key = .ok version := by
  rw [lookup, OrderedMap.mem_entries_iff.1 h]

theorem lookup_of_not_mem (h : key ∉ registry.keys) :
    registry.lookup key = .error (.unsupportedVersion key registry.keys) := by
  have hget : registry.versions.get? key = none := by
    rw [← Option.not_isSome_iff_eq_none]
    exact fun hcontains ↦ h (OrderedMap.contains_iff_mem_keys.1 hcontains)
  rw [lookup, hget]

/-- A key parts the entries into those before it and those behind it, in none of which it occurs. -/
theorem exists_entries_eq_append (h : key ∈ registry.keys) :
    ∃ before version after, registry.versions.entries = before ++ (key, version) :: after ∧
      ∀ entry ∈ before ++ after, entry.1 ≠ key := by
  obtain ⟨⟨key, version⟩, hentry, rfl⟩ := List.mem_map.1 h
  obtain ⟨before, after, hentries⟩ := List.append_of_mem hentry
  refine ⟨before, version, after, hentries, fun entry hother heq ↦ ?_⟩
  have hnodup := registry.versions.nodup
  rw [hentries] at hnodup
  have hfresh := (List.nodup_cons.1 ((List.perm_middle.map Prod.fst).nodup hnodup)).1
  exact hfresh (heq ▸ List.mem_map_of_mem hother)

/-- A sweep takes its first version out of the row of all versions and puts it in front. -/
theorem exists_sweepFrom_eq (h : key ∈ registry.keys) :
    ∃ before version after, registry.all = before ++ version :: after ∧
      registry.lookup key = .ok version ∧
      registry.sweepFrom key = .ok (version :: (before ++ after)) ∧
      (key, version) ∈ registry.versions.entries := by
  obtain ⟨before, version, after, hentries, hothers⟩ := exists_entries_eq_append h
  have hmem : (key, version) ∈ registry.versions.entries := by
    rw [hentries]
    exact List.mem_append_right _ List.mem_cons_self
  have hfilter :
      registry.versions.entries.filter (fun entry ↦ entry.1 ≠ key) = before ++ after := by
    rw [hentries, List.filter_append, List.filter_cons_of_neg (by simp), ← List.filter_append]
    exact List.filter_eq_self.2 fun entry hentry ↦ decide_eq_true (hothers entry hentry)
  refine ⟨before.map Prod.snd, version, after.map Prod.snd, ?_, lookup_of_mem hmem, ?_, hmem⟩
  · rw [all, OrderedMap.values, hentries, List.map_append, List.map_cons]
  · rw [sweepFrom, lookup_of_mem hmem]
    dsimp only
    rw [hfilter, List.map_append]

/-- After any requests to an empty registry or to the standard one, the registry holds its first
versions and then those whose requests succeeded, each under its label and no label twice.  The next
request is refused and changes nothing if its key is taken, and comes in last if not.  A sweep from
a known key is the row of all versions with the one of that key put in front, and all that asks for
an unknown key fails with the list of the known ones. -/
theorem labels_and_sweeps_registerAll (start : Registry)
    (hstart : start = .empty ∨ ∃ library, start = .standard library)
    (requests : List Registration) :
    let registry := start.registerAll requests
    (registry.keys = start.keys ++ (start.granted requests).map Registration.key ∧
      registry.keys.Nodup ∧ registry.all.map Version.label = registry.keys ∧
      registry.all = start.all ++ (start.granted requests).map Registration.version) ∧
    (∀ request : Registration,
      (request.key ∈ registry.keys →
        request.answer registry = .error (.duplicateVersion request.key) ∧
          registry.attempt request = registry) ∧
      (request.key ∉ registry.keys →
        (∃ registered, request.answer registry = .ok registered) ∧
          (registry.attempt request).all = registry.all ++ [request.version])) ∧
    (∀ key ∈ registry.keys, ∃ before version after,
      registry.all = before ++ version :: after ∧ version.label = key ∧
        registry.lookup key = .ok version ∧
        registry.sweepFrom key = .ok (version :: (before ++ after)) ∧
        (version :: (before ++ after)).Perm registry.all) ∧
    ∀ key, key ∉ registry.keys →
      registry.lookup key = .error (.unsupportedVersion key registry.keys) ∧
      registry.createSession key = .error (.unsupportedVersion key registry.keys) ∧
      registry.sweepFrom key = .error (.unsupportedVersion key registry.keys) := by
  intro registry
  have hlabelled : registry.Labelled := by
    obtain rfl | ⟨library, rfl⟩ := hstart
    · exact labelled_empty.registerAll requests
    · exact (labelled_standard library).registerAll requests
  refine ⟨⟨keys_registerAll start requests, registry.versions.nodup, hlabelled.map_label_all,
    all_registerAll start requests⟩, fun request ↦ ⟨fun hmem ↦ ?_, fun hmem ↦ ?_⟩,
    fun key hkey ↦ ?_, fun key hkey ↦ ?_⟩
  · refine ⟨answer_of_mem hmem, ?_⟩
    rw [attempt, answer_of_mem hmem]
  · obtain ⟨registered, hanswer, hentries⟩ := exists_answer_of_not_mem hmem
    refine ⟨⟨registered, hanswer⟩, ?_⟩
    rw [attempt, hanswer]
    dsimp only
    rw [all, OrderedMap.values, hentries, List.map_append, List.map_singleton]
    rfl
  · obtain ⟨before, version, after, hall, hlookup, hsweep, hentry⟩ := exists_sweepFrom_eq hkey
    refine ⟨before, version, after, hall, hlabelled _ hentry, hlookup, hsweep, ?_⟩
    rw [hall]
    exact List.perm_middle.symm
  · have hlookup := lookup_of_not_mem hkey
    refine ⟨hlookup, ?_, ?_⟩
    · rw [createSession, hlookup]
      rfl
    · rw [sweepFrom, hlookup]

theorem labels_and_sweeps_registerAll_taken_keys :
    let requests : List Registration :=
      [⟨"2.0.0", ⟨"9.9.9"⟩, .bundled⟩, ⟨"next", ⟨"4.0.0"⟩, .bundled⟩, ⟨"next", ⟨"5.0.0"⟩, .bundled⟩]
    let registry := (standard .bundled).registerAll requests
    (standard .bundled = .empty ∨ ∃ library, standard .bundled = .standard library) ∧
      registry.keys = ["latest", "2.0.0", "1.0.0", "next"] ∧
      registry.all.map (·.compiler.version) = ["3.0.0", "2.0.0", "1.0.0", "4.0.0"] ∧
      (∃ before version after, registry.all = before ++ version :: after ∧
        version.label = "2.0.0" ∧
        registry.sweepFrom "2.0.0" = .ok (version :: (before ++ after))) ∧
      registry.createSession "5.0.0" = .error (.unsupportedVersion "5.0.0" registry.keys) := by
  intro requests registry
  have hkeys : registry.keys = ["latest", "2.0.0", "1.0.0", "next"] := by decide +kernel
  have hversions : registry.all.map (·.compiler.version) =
      ["3.0.0", "2.0.0", "1.0.0", "4.0.0"] := by decide +kernel
  obtain ⟨-, -, hknown, hunknown⟩ :=
    labels_and_sweeps_registerAll (standard .bundled) (.inr ⟨_, rfl⟩) requests
  obtain ⟨before, version, after, hall, hlabel, -, hsweep, -⟩ :=
    hknown "2.0.0" (by rw [hkeys]; decide)
  exact ⟨.inr ⟨_, rfl⟩, hkeys, hversions, ⟨before, version, after, hall, hlabel, hsweep⟩,
    (hunknown "5.0.0" (by rw [hkeys]; decide)).2.1⟩

end Registry

end VersionSweep
