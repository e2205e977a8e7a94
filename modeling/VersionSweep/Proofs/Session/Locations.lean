import VersionSweep.Proofs.Project.Reporting
import VersionSweep.Proofs.Session.Preparation

/-!
# Locations of diagnostics

Whatever is done to prepare a session, each located diagnostic that it compiles to can be shown with
an excerpt: the store still gives the file's name the text that was read, and the location begins
and ends between characters of it.
-/

namespace VersionSweep

/-- A place in the text of the one unit with the name of the place's file, which is not the
library. -/
structure Location.Exact (units : List SourceUnit) (target : Int) (text : String)
    (location : Location) : Prop where
  unit : ∃ unit ∈ units, unit.isLibrary = false ∧
    unit.file = .parse location.file text target ∧
    ∀ other ∈ units, other.file.name = location.file → other = unit
  le : location.start + location.length ≤ text.utf8ByteSize
  start : String.Pos.Raw.IsValid text ⟨location.start⟩
  stop : String.Pos.Raw.IsValid text ⟨location.start + location.length⟩

/-- A finding in a served unit is located in the text that the unit's name leads to. -/
theorem Loading.Served.exists_exact {target : Int} {texts : Store} {loading : Loading}
    (h : loading.Served target texts) {diagnostic : Diagnostic}
    (hfound : diagnostic.FoundIn loading.units) {location : Location}
    (hlocation : diagnostic.location = some location) :
    ∃ text, texts.sourceText location.file = some text ∧
      location.Exact loading.units target text := by
  obtain ⟨unit, hunit, hlibrary, finding, hwithin, rfl⟩ := hfound
  obtain rfl := Option.some.inj hlocation
  have hread := h.readFrom_of_mem_units hunit
  have hstop : Text.Boundary unit.file.text.toList (finding.span.start + finding.span.length) :=
    hwithin.start_add_length ▸ hwithin.stop
  refine ⟨unit.file.text, ?_, ⟨unit, hunit, hlibrary, hread.parse, ?_⟩, ?_, ?_, ?_⟩
  · rw [Store.sourceText, hread.text]
  · intro other hother hname
    exact h.unit_eq_of_name_eq hother hunit hname
  · rw [Text.utf8ByteSize_eq_byteLength]
    exact hstop.le_byteLength
  · exact (Text.boundary_iff_isValid _ _).1 hwithin.start
  · exact (Text.boundary_iff_isValid _ _).1 hstop

namespace Session

/-- However a session was prepared, each located diagnostic that it compiles to stands exactly in
the text that the session has for the file: the text that a unit of the program, not the library and
the only one of this name, was read from. -/
theorem exists_exact_of_compile (label : String) (compiler : Compiler) (library : Library)
    (steps : List Preparation) {result : Compilation} {final : Session}
    (h : ((start label compiler library).prepareAll steps).compile = (.ok result, final)) :
    let session := (start label compiler library).prepareAll steps
    ∃ program store,
      Program.build session.compiler.dialect session.roots session.settings session.store =
        .ok (program, store) ∧
      result.diagnostics = (program.diagnose store).2 ∧
      ∀ diagnostic ∈ result.diagnostics, ∀ location, diagnostic.location = some location →
        ∃ text, final.store.sourceText location.file = some text ∧
          location.Exact program.units (Target.ofSettings session.settings) text := by
  intro session
  have hpristine : session.Pristine :=
    pristine_prepareAll (pristine_start label compiler library) steps
  have hfaithful := Store.faithful_of_handles_eq hpristine.services hpristine.handles
    (Target.ofSettings session.settings)
  rw [compile_of_pristine hpristine] at h
  split at h
  · cases h
  rename_i program store hmake
  have hbuild := Program.build_eq_ok_iff.2 hmake
  obtain ⟨hresult, rfl⟩ := Prod.mk.inj h
  obtain rfl := Except.ok.inj hresult
  obtain ⟨loading, hserved, rfl, rfl⟩ := Program.exists_loading_of_build hfaithful hbuild
  refine ⟨_, _, hbuild, rfl, fun diagnostic hdiagnostic location hlocation ↦ ?_⟩
  have hunits : ∀ unit ∈ loading.units, unit.file.Sound := fun unit hunit ↦
    (hserved.readFrom_of_mem_units hunit).sound
  obtain hfound | hnone := Program.foundIn_or_location_eq_none hunits rfl _ hdiagnostic
  · obtain ⟨text, htext, hexact⟩ := hserved.exists_exact hfound hlocation
    refine ⟨text, ?_, hexact⟩
    -- Neither loading nor reporting touches the texts that the session was given.
    refine Eq.trans (Store.SameTexts.sourceText ?_ _) htext
    exact (Program.sameTexts_diagnose _ loading.store).trans hserved.same
  · rw [hnone] at hlocation
    cases hlocation

theorem exists_exact_of_compile_misspelled_root :
    let session := (start "2.0" ⟨"2.0.0"⟩ .bundled).prepareAll
      [.set "strict" "true", .set "unknown" "1", .addExtra "lib/b.ts" "export let y = 1;",
        .addRoot ".\\src/../a.ts"
          "import \x7b y \x7d from \"./lib/b\";\nlet s: number = \"é\";"]
    ∃ result final, session.compile = (.ok result, final) ∧
      (∃ diagnostic ∈ result.diagnostics, diagnostic.location.isSome) ∧
      ∀ diagnostic ∈ result.diagnostics, ∀ location, diagnostic.location = some location →
        ∃ text, final.store.sourceText location.file = some text ∧
          location.start + location.length ≤ text.utf8ByteSize := by
  intro session
  have hlocated : (session.compile.1.toOption.any fun result ↦
      result.diagnostics.any fun diagnostic ↦ diagnostic.location.isSome) = true := by
    decide +kernel
  rcases hcompile : session.compile with ⟨outcome, final⟩
  cases outcome with
  | error failure =>
    rw [hcompile] at hlocated
    cases hlocated
  | ok result =>
    obtain ⟨program, store, -, -, hexact⟩ :=
      exists_exact_of_compile "2.0" ⟨"2.0.0"⟩ .bundled _ hcompile
    rw [hcompile] at hlocated
    refine ⟨result, final, rfl, List.any_eq_true.1 hlocated, ?_⟩
    intro diagnostic hdiagnostic location hlocation
    obtain ⟨text, htext, hplace⟩ := hexact diagnostic hdiagnostic location hlocation
    exact ⟨text, htext, hplace.le⟩

end Session

end VersionSweep
