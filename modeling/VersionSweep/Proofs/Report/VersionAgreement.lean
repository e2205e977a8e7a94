import VersionSweep.Proofs.Session.Twins
import VersionSweep.Report.Regression

/-!
# Agreement of versions

Versions with one library know the same settings but for `isolatedDeclarations`, so where a snippet
leaves this setting alone they come to the same outcome.  Only messages about values that do not fit
may differ, and they do not differ either between versions that name literals in the same way.
-/

namespace VersionSweep

namespace Compiler

/-- The setting that not all dialects declare. -/
def isolatedName : String := "isolatedDeclarations"

/-- The catalogs of all compilers agree under any name but the one of that setting. -/
theorem lookup_catalog_eq (compiler other : Compiler) {name : String}
    (h : Text.sameFolded name isolatedName = false) :
    compiler.catalog.lookup name = other.catalog.lookup name := by
  have hshared (compiler : Compiler) :
      compiler.catalog.lookup name = (Catalog.ofList sharedSettings).lookup name := by
    unfold catalog declared
    split
    · rw [Catalog.ofList, List.foldl_concat]
      refine (OrderedMap.get?_insert _ _ _ _).trans (if_neg fun hname ↦ ?_)
      exact absurd h (by simp [Text.sameFolded, isolatedName, ← hname, Setting.boolean])
    · rw [List.append_nil]
  rw [hshared compiler, hshared other]

theorem lookup_catalog_eq_none {compiler : Compiler}
    (hdialect : compiler.dialect.hasIsolatedDeclarations = false) {name : String}
    (h : Text.sameFolded name isolatedName = true) : compiler.catalog.lookup name = none := by
  unfold catalog declared
  rw [hdialect, Catalog.lookup, eq_of_beq h]
  decide

theorem reserves_eq_false {name : String} (h : Text.sameFolded name isolatedName = true) :
    SweepFlags.reserves name = false := by
  rw [SweepFlags.reserves, Text.sameFolded, eq_of_beq h]
  decide

variable {compiler other : Compiler} {state : CompilerInterface.Session Store}
  {entries : List Entry}

/-- A snippet with that setting can be put in only if the dialect has it. -/
theorem hasIsolatedDeclarations_of_replayEntries
    (h : (Snippet.replayEntries compiler.interface.target state entries).failure = none)
    {name raw : String} {line : Nat} (hmem : Entry.setting name raw line ∈ entries)
    (hname : Text.sameFolded name isolatedName = true) :
    compiler.dialect.hasIsolatedDeclarations = true := by
  induction entries generalizing state with
  | nil => cases hmem
  | cons entry rest ih =>
    cases entry with
    | file other content =>
      rw [Snippet.replayEntries] at h
      exact ih h ((List.mem_cons.1 hmem).resolve_left fun h ↦ by cases h)
    | setting other text number =>
      rw [Snippet.replayEntries] at h
      split at h
      · rename_i after hset
        rcases List.mem_cons.1 hmem with hhead | hmem
        · obtain ⟨rfl, rfl, rfl⟩ := Entry.setting.inj hhead
          by_contra hdialect
          -- The name is neither one of the sweep nor one of such a dialect.
          obtain hreserved | hdeclared := CompilerInterface.reserved_or_declared_of_set hset
          · rw [reserves_eq_false hname] at hreserved
            cases hreserved
          · have hnone := lookup_catalog_eq_none (Bool.eq_false_iff.2 hdialect) hname
            rw [show compiler.interface.catalog = compiler.catalog from rfl, hnone] at hdeclared
            cases hdeclared
        · exact ih h hmem
      · cases h

/-- Compilers of sessions that both took a snippet know its settings alike. -/
theorem knowAlike_of_replayEntries {state' : CompilerInterface.Session Store}
    (h : (Snippet.replayEntries compiler.interface.target state entries).failure = none)
    (h' : (Snippet.replayEntries other.interface.target state' entries).failure = none) :
    compiler.KnowAlike other entries := by
  intro name raw line hmem
  cases hname : Text.sameFolded name isolatedName with
  | false => exact lookup_catalog_eq compiler other hname
  | true =>
    rw [catalog, catalog, declared, declared, hasIsolatedDeclarations_of_replayEntries h hmem hname,
      hasIsolatedDeclarations_of_replayEntries h' hmem hname]

end Compiler

theorem Version.compile_of_failure {version : Version} {snippet : Snippet} {failure : Failure}
    (h : (version.session.load snippet).failure = some failure) :
    version.compile snippet = .error failure := by
  simp only [Version.compile, h]

theorem Version.compile_of_error {version : Version} {snippet : Snippet} {failure : Failure}
    {session : Session} (h : (version.session.load snippet).failure = none)
    (hcompile : (version.session.load snippet).state.compile = (.error failure, session)) :
    version.compile snippet = .error failure := by
  simp only [Version.compile, h, hcompile]

theorem Version.compile_of_ok {version : Version} {snippet : Snippet} {result : Compilation}
    {session : Session} (h : (version.session.load snippet).failure = none)
    (hcompile : (version.session.load snippet).state.compile = (.ok result, session)) :
    version.compile snippet = .ok (result, session) := by
  simp only [Version.compile, h, hcompile]

namespace Version

open Session

variable {v w : Version} {snippet : Snippet}

theorem state_session_eq (hlibrary : v.library = w.library) :
    v.session.state = w.session.state := by
  rw [session, session, start, start, hlibrary]
  rfl

theorem load_failure_of_compile {compiled : Compilation × Session}
    (h : v.compile snippet = .ok compiled) : (v.session.load snippet).failure = none := by
  cases hloaded : (v.session.load snippet).failure with
  | none => rfl
  | some failure =>
    rw [compile_of_failure hloaded] at h
    cases h

/-- Versions with one library that know the settings of a snippet alike fail on it in one way or
compile it alike. -/
theorem compile_cases (hlibrary : v.library = w.library)
    (hknow : v.compiler.KnowAlike w.compiler snippet.entries) :
    (∃ failure, v.compile snippet = .error failure ∧ w.compile snippet = .error failure) ∨
    ∃ first second, v.compile snippet = .ok first ∧ w.compile snippet = .ok second ∧
      CompiledAlike v.compiler.dialect w.compiler.dialect first second := by
  have hreplay : snippet.replay v.compiler.interface.target v.session.state =
      snippet.replay w.compiler.interface.target w.session.state := by
    rw [← state_session_eq hlibrary]
    exact hknow.replayEntries_eq _
  have hfailure : (v.session.load snippet).failure = (w.session.load snippet).failure :=
    congrArg (fun replay : Snippet.Replay (CompilerInterface.Session Store) ↦ replay.failure)
      hreplay
  have htwin : (v.session.load snippet).state.state = (w.session.load snippet).state.state :=
    congrArg (fun replay : Snippet.Replay (CompilerInterface.Session Store) ↦ replay.state)
      hreplay
  have hpristine := pristine_load (pristine_start v.label v.compiler v.library) snippet
  cases hloaded : (w.session.load snippet).failure with
  | some failure =>
    exact .inl ⟨failure, compile_of_failure (hfailure.trans hloaded), compile_of_failure hloaded⟩
  | none =>
    have hfirst : (v.session.load snippet).failure = none := hfailure.trans hloaded
    obtain ⟨failure, final, final', hcompile, hcompile'⟩ |
      ⟨result, result', final, final', hcompile, hcompile', halike⟩ :=
        compile_cases_of_state_eq htwin hpristine
    · exact .inl ⟨failure, compile_of_error hfirst hcompile, compile_of_error hloaded hcompile'⟩
    · exact .inr ⟨_, _, compile_of_ok hfirst hcompile, compile_of_ok hloaded hcompile', halike⟩

end Version

/-- Whether two diagnostics are the same but perhaps for the message about a value that does not fit
an annotation. -/
structure Diagnostic.Agrees (first second : Diagnostic) : Prop where
  severity : first.severity = second.severity
  code : first.code = second.code
  location : first.location = second.location
  message : first.code ≠ 2322 → first.message = second.message

theorem Diagnostic.Alike.agrees {d e : Dialect} {first second : Diagnostic}
    (h : Alike d e first second) : first.Agrees second := by
  obtain rfl | ⟨⟨sketch, file⟩, -, rfl, rfl⟩ := h
  · exact ⟨rfl, rfl, rfl, fun _ ↦ rfl⟩
  · cases sketch with
    | settled finding => exact ⟨rfl, rfl, rfl, fun _ ↦ rfl⟩
    | assignment source target span => exact ⟨rfl, rfl, rfl, fun hcode ↦ absurd rfl hcode⟩

namespace Version

open Session

variable {v w : Version} {snippet : Snippet}

theorem knowAlike_of_settings
    (h : ∀ setting ∈ snippet.settings,
      Text.sameFolded setting.1 Compiler.isolatedName = false) :
    v.compiler.KnowAlike w.compiler snippet.entries := by
  intro name raw line hmem
  refine Compiler.lookup_catalog_eq _ _ (h (name, raw) ?_)
  exact List.mem_filterMap.2 ⟨_, hmem, rfl⟩

theorem namesLiterals_eq (h : 2 ≤ v.compiler.dialect.major ↔ 2 ≤ w.compiler.dialect.major) :
    v.compiler.dialect.namesLiterals = w.compiler.dialect.namesLiterals :=
  decide_eq_decide.2 h

end Version

namespace VersionRun

variable {version : Version} {snippet : Snippet}

theorem ofVersion_of_error {failure : Failure} (h : version.compile snippet = .error failure)
    (options : BlockOptions) :
    ofVersion options snippet version =
      ⟨version.label, version.compiler.version, .failed failure.message, failure.message⟩ := by
  rw [ofVersion, outcome?, h]
  rfl

theorem ofVersion_of_ok {compiled : Compilation × Session}
    (h : version.compile snippet = .ok compiled) (options : BlockOptions) :
    ofVersion options snippet version =
      ⟨version.label, version.compiler.version, (shown options compiled).1,
        (shown options compiled).2⟩ := by
  rw [ofVersion, outcome?, h]
  rfl

end VersionRun

namespace Version

open Session

variable {v w : Version} {snippet : Snippet}

/-- On a snippet that leaves `isolatedDeclarations` alone, versions with one library fail in one
way, or write the same files and report diagnostics that agree.  If neither or both of them are
older than the second major version, then their blocks are the same. -/
theorem agree_of_settings (hlibrary : v.library = w.library)
    (hsettings : ∀ setting ∈ snippet.settings,
      Text.sameFolded setting.1 Compiler.isolatedName = false) (options : BlockOptions) :
    let run := VersionRun.ofVersion options snippet v
    let other := VersionRun.ofVersion options snippet w
    ((∃ failure, v.compile snippet = .error failure ∧ w.compile snippet = .error failure) ∨
      ∃ first second, v.compile snippet = .ok first ∧ w.compile snippet = .ok second ∧
        first.1.outputs = second.1.outputs ∧
        List.Forall₂ Diagnostic.Agrees first.1.diagnostics second.1.diagnostics) ∧
    run.outcome = other.outcome ∧
    ((2 ≤ v.compiler.dialect.major ↔ 2 ≤ w.compiler.dialect.major) → run.block = other.block) := by
  intro run other
  obtain ⟨failure, hfirst, hsecond⟩ | ⟨first, second, hfirst, hsecond, halike⟩ :=
    compile_cases hlibrary (knowAlike_of_settings hsettings)
  · have hrun : run = _ := VersionRun.ofVersion_of_error hfirst options
    have hother : other = _ := VersionRun.ofVersion_of_error hsecond options
    rw [hrun, hother]
    exact ⟨.inl ⟨failure, hfirst, hsecond⟩, rfl, fun _ ↦ rfl⟩
  · have hrun : run = _ := VersionRun.ofVersion_of_ok hfirst options
    have hother : other = _ := VersionRun.ofVersion_of_ok hsecond options
    rw [hrun, hother]
    refine ⟨.inr ⟨first, second, hfirst, hsecond, halike.outputs, ?_⟩, ?_, fun hmajor ↦ ?_⟩
    · exact halike.diagnostics.imp fun _ _ h ↦ h.agrees
    · simp only [VersionRun.shown, halike.outputs, halike.diagnostics.length_eq]
    · have hdiagnostics := Diagnostic.eq_of_forall₂_alike (namesLiterals_eq hmajor)
        halike.diagnostics
      simp only [VersionRun.shown, render, halike.outputs, hdiagnostics, halike.store]

theorem agree_of_settings_standard :
    let snippet := Snippet.parse "// @strict\nlet x: string = 1;" "a.ts"
    let old : Version := ⟨"1.0.0", ⟨"1.0.0"⟩, .bundled⟩
    let new : Version := ⟨"latest", ⟨"3.0.0"⟩, .bundled⟩
    (∀ setting ∈ snippet.settings, Text.sameFolded setting.1 Compiler.isolatedName = false) ∧
    (VersionRun.ofVersion ⟨none, true⟩ snippet old).outcome =
      (VersionRun.ofVersion ⟨none, true⟩ snippet new).outcome := by
  intro snippet old new
  have hsettings : ∀ setting ∈ snippet.settings,
      Text.sameFolded setting.1 Compiler.isolatedName = false := by
    decide +kernel
  have hlibrary : old.library = new.library := rfl
  exact ⟨hsettings, (agree_of_settings hlibrary hsettings ⟨none, true⟩).2.1⟩

end Version

end VersionSweep
