import VersionSweep.Proofs.Project.Serving
import VersionSweep.Proofs.Typing.FindingPlaces

/-!
# What a program reports, and where

A located diagnostic of a program is a finding in a unit that is not the library, under the name of
the unit's file.  What is reported about settings, missing types and files that could not be written
has no location.  Writing files leaves the texts of the store as they are.
-/

namespace VersionSweep

def Diagnostic.FoundIn (units : List SourceUnit) (diagnostic : Diagnostic) : Prop :=
  ∃ unit ∈ units, unit.isLibrary = false ∧ ∃ finding : Finding,
    finding.span.Within unit.file.text.toList ∧
      diagnostic = finding.toDiagnostic unit.file.name

namespace Emit

theorem sameTexts_writeAll (store : Store) (artifacts : List Artifact) :
    (writeAll store artifacts).1.SameTexts store := by
  induction artifacts generalizing store with
  | nil => exact .refl store
  | cons artifact rest ih =>
    have hwrite : (write artifact store).1.SameTexts store := by
      unfold write
      split <;> exact ⟨rfl, rfl⟩
    exact (ih _).trans hwrite

theorem location_of_mem_write {store : Store} {artifact : Artifact} {diagnostic : Diagnostic}
    (h : diagnostic ∈ (write artifact store).2) : diagnostic.location = none := by
  unfold write at h
  split at h
  · obtain rfl := List.mem_singleton.1 h
    rfl
  · cases h

theorem location_of_mem_writeAll {store : Store} {artifacts : List Artifact}
    {diagnostic : Diagnostic} (h : diagnostic ∈ (writeAll store artifacts).2) :
    diagnostic.location = none := by
  induction artifacts generalizing store with
  | nil => cases h
  | cons artifact rest ih =>
    rcases List.mem_append.1 h with h | h
    · exact location_of_mem_write h
    · exact ih h

end Emit

namespace Program

variable {program : Program} {diagnostic : Diagnostic}

theorem mem_sources {unit : SourceUnit} :
    unit ∈ program.sources ↔ unit ∈ program.units ∧ unit.isLibrary = false := by
  simp [sources]

theorem foundIn_of_mem_syntactic (hunits : ∀ unit ∈ program.units, unit.file.Sound)
    (h : diagnostic ∈ program.syntactic) : diagnostic.FoundIn program.units := by
  obtain ⟨unit, hunit, hdiagnostic⟩ := List.mem_flatMap.1 h
  obtain ⟨finding, hfinding, rfl⟩ := List.mem_map.1 hdiagnostic
  obtain ⟨hmem, hlibrary⟩ := mem_sources.1 hunit
  exact ⟨unit, hmem, hlibrary, finding, (hunits unit hmem).findings finding hfinding, rfl⟩

theorem foundIn_of_mem_declaration (hunits : ∀ unit ∈ program.units, unit.file.Sound)
    (h : diagnostic ∈ program.declaration) : diagnostic.FoundIn program.units := by
  unfold declaration at h
  split at h
  · obtain ⟨unit, hunit, hdiagnostic⟩ := List.mem_flatMap.1 h
    obtain ⟨hmem, hlibrary⟩ := mem_sources.1 (List.mem_filter.1 hunit).1
    obtain ⟨statement, hstatement, hreported⟩ := List.mem_filterMap.1 hdiagnostic
    cases statement with
    | expr value span => cases hreported
    | importNames decl => cases hreported
    | var decl =>
      have hbuilt := (hunits unit hmem).statements _ hstatement
      dsimp only at hreported
      split at hreported
      · obtain rfl := Option.some.inj hreported
        exact ⟨unit, hmem, hlibrary, _, hbuilt.name.within, rfl⟩
      · cases hreported
  · cases h

theorem location_of_mem_global (h : diagnostic ∈ program.global) :
    diagnostic.location = none := by
  unfold global at h
  split at h
  · obtain ⟨name, -, rfl⟩ := List.mem_map.1 h
    rfl
  · cases h

theorem location_of_mem_options (h : diagnostic ∈ program.options) :
    diagnostic.location = none := by
  rcases List.mem_append.1 h with h | h
  all_goals
    split at h
    · obtain rfl := List.mem_singleton.1 h
      rfl
    · cases h

/-- A diagnostic of a program has no location or is found in a unit that is not the library. -/
theorem foundIn_or_location_eq_none (hunits : ∀ unit ∈ program.units, unit.file.Sound)
    {dialect : Dialect}
    (hchecked : program.checked = Checking.check program.units program.settings dialect)
    (store : Store) (h : diagnostic ∈ (program.diagnose store).2) :
    diagnostic.FoundIn program.units ∨ diagnostic.location = none := by
  simp only [diagnose, List.mem_append] at h
  obtain ((((h | h) | h) | h) | h) | h := h
  · exact .inl (foundIn_of_mem_syntactic hunits h)
  · rw [semantic, hchecked] at h
    exact .inl (Checking.exists_unit_of_mem_check hunits program.settings dialect h)
  · exact .inr (location_of_mem_global h)
  · exact .inl (foundIn_of_mem_declaration hunits h)
  · exact .inr (location_of_mem_options h)
  · exact .inr (Emit.location_of_mem_writeAll h)

theorem sameTexts_diagnose (program : Program) (store : Store) :
    (program.diagnose store).1.SameTexts store :=
  Emit.sameTexts_writeAll store _

end Program

end VersionSweep
