import VersionSweep.Proofs.Output.SharedPaths
import VersionSweep.Proofs.Project.History

/-!
# Where the output goes

Nothing that is made is left out: it is written if no file exists at its path, and refused with a
report if one does.  What is written never comes to be a file, so what is refused does not depend on
what was written before, and `writeAll_eq` tells all of a run at once.
-/

namespace VersionSweep

namespace Emit

/-- The outputs after some artifacts were put to them, none of them being refused. -/
def putAll (outputs : OrderedMap String) (artifacts : List Artifact) : OrderedMap String :=
  artifacts.foldl (fun map artifact ↦ map.insert artifact.path artifact.text) outputs

/-- What is free is put to the outputs and what is taken is reported, each in its order. -/
theorem writeAll_eq (store : Store) (artifacts : List Artifact) :
    writeAll store artifacts =
      ({ store with
          outputs := putAll store.outputs (artifacts.filter fun a ↦ !store.fileExists a.path) },
        (artifacts.filter fun a ↦ store.fileExists a.path).map Artifact.refusal) := by
  induction artifacts generalizing store with
  | nil => rfl
  | cons artifact rest ih =>
    rw [writeAll]
    cases hexists : store.fileExists artifact.path with
    | true =>
      have hwrite : write artifact store = (store, [artifact.refusal]) := by
        rw [write, if_pos hexists, Artifact.refusal]
      simp [hwrite, ih, hexists]
    | false =>
      have hwrite : write artifact store = (store.putOutput artifact.path artifact.text, []) := by
        rw [write, if_neg (by rw [hexists]; decide)]
      -- The new output is no file, so the same artifacts are refused behind it.
      have hfiles (path : String) :
          (store.putOutput artifact.path artifact.text).fileExists path = store.fileExists path :=
        rfl
      simp only [hwrite, ih, hfiles, List.filter_cons, hexists]
      rfl

/-- Where nothing was written before, each path stands at the place of its first artifact. -/
theorem keys_putAll_empty (artifacts : List Artifact) :
    (putAll .empty artifacts).keys = (artifacts.map Artifact.path).eraseDups := by
  have hpairs : putAll .empty artifacts =
      .ofList (artifacts.map fun artifact ↦ (artifact.path, artifact.text)) := by
    rw [putAll, OrderedMap.ofList, List.foldl_map]
  rw [hpairs, OrderedMap.keys_ofList, List.map_map]
  rfl

def unitPaths (settings : Assignment) (unit : SourceUnit) : List String :=
  let folder := settings.string? "outDir"
  outputPath unit.file.name ".js" folder ::
    if settings.flag "declaration" then [outputPath unit.file.name ".d.ts" folder] else []

end Emit

def SourceUnit.isWritten (unit : SourceUnit) : Bool :=
  !unit.isLibrary && !unit.file.isDeclarationFile

namespace Program

open Emit

def madePaths (program : Program) : List String :=
  if program.settings.flag "noEmit" then []
  else (program.units.filter SourceUnit.isWritten).flatMap (unitPaths program.settings)

theorem map_path_unitArtifacts (settings : Assignment) (typeOf : ℕ → Option BasicType)
    (unit : SourceUnit) : (unitArtifacts settings typeOf unit).map Artifact.path =
      if unit.isWritten then unitPaths settings unit else [] := by
  rw [unitArtifacts, SourceUnit.isWritten, unitPaths]
  cases unit.isLibrary <;> cases unit.file.isDeclarationFile <;>
    cases settings.flag "declaration" <;> rfl

theorem map_path_artifacts (program : Program) :
    (artifacts program.units program.checked.types program.settings).map Artifact.path =
      program.madePaths := by
  unfold artifacts madePaths
  split
  · rfl
  conv_rhs => rw [← List.zipIdx_map_fst 0 program.units]
  -- The numbers of the units choose the types of their declarations, which no path depends on.
  induction program.units.zipIdx with
  | nil => rfl
  | cons numbered rest ih =>
    rw [List.flatMap_cons, List.map_append, ih, map_path_unitArtifacts, List.map_cons,
      List.filter_cons]
    cases numbered.1.isWritten with
    | true => rw [if_pos rfl, if_pos rfl, List.flatMap_cons]
    | false => rw [if_neg Bool.false_ne_true, if_neg Bool.false_ne_true, List.nil_append]

def refusalAt (path : String) : Diagnostic :=
  ⟨.error, 5055, .ofText ("Cannot write file '" ++ VirtualPath.canonical path ++
    "' because it would overwrite input file."), none⟩

theorem map_refusal (artifacts : List Artifact) :
    artifacts.map Artifact.refusal = (artifacts.map Artifact.path).map refusalAt := by
  rw [List.map_map]
  rfl

theorem filter_map_path (artifacts : List Artifact) (taken : String → Bool) :
    (artifacts.filter fun artifact ↦ taken artifact.path).map Artifact.path =
      (artifacts.map Artifact.path).filter taken := by
  rw [List.filter_map]
  rfl

/-- Of what a program makes, an artifact at the path of a file is reported, each by itself, and all
else becomes an output.  There are no other outputs and none of them is a file, and all but the
outputs of the store stays as it was. -/
theorem accounts_for_made_paths (program : Program) {store : Store}
    (hnone : store.outputs = .empty) :
    let after := (program.emit store).1
    let reports := (program.emit store).2
    let paths := program.madePaths
    after.outputs.keys = (paths.filter fun path ↦ !store.fileExists path).eraseDups ∧
      reports = (paths.filter store.fileExists).map refusalAt ∧
      (∀ path ∈ paths, (path ∈ after.outputs.keys ↔ store.fileExists path = false) ∧
        (store.fileExists path = true → refusalAt path ∈ reports)) ∧
      (∀ key ∈ after.outputs.keys, key ∈ paths ∧ after.fileExists key = false) ∧
      after = { store with outputs := after.outputs } := by
  intro after reports paths
  have hemit : program.emit store = _ := writeAll_eq store _
  have hstore : after = _ := congrArg Prod.fst hemit
  have hreports : reports = (paths.filter store.fileExists).map refusalAt := by
    have hmade : reports = _ := congrArg Prod.snd hemit
    rw [hmade, map_refusal, filter_map_path, map_path_artifacts]
  have hkeys : after.outputs.keys =
      (paths.filter fun path ↦ !store.fileExists path).eraseDups := by
    rw [hstore, hnone, keys_putAll_empty,
      filter_map_path _ fun path ↦ !store.fileExists path, map_path_artifacts]
  have hmem (path : String) :
      path ∈ after.outputs.keys ↔ path ∈ paths ∧ store.fileExists path = false := by
    rw [hkeys, List.mem_eraseDups, List.mem_filter, Bool.not_eq_true']
  have hsame (path : String) : after.fileExists path = store.fileExists path :=
    fileExists_writeAll store _ path
  refine ⟨hkeys, hreports, fun path hpath ↦ ⟨?_, fun hexists ↦ ?_⟩, fun key hkey ↦ ?_, ?_⟩
  · rw [hmem]
    exact and_iff_right hpath
  · rw [hreports]
    exact List.mem_map_of_mem (List.mem_filter.2 ⟨hpath, hexists⟩)
  · obtain ⟨hpath, hfree⟩ := (hmem key).1 hkey
    exact ⟨hpath, (hsame key).trans hfree⟩
  · rw [hstore]

/-- Three units with declarations, two of which share their paths, where the script of the other one
is a file already. -/
theorem accounts_for_made_paths_shared_stem :
    let store := (Store.empty .language .bundled).addFile "src\\..\\b.js" ""
    let unit (name text : String) : SourceUnit :=
      ⟨SourceFile.parse name text 1, VirtualPath.canonical name, false, []⟩
    let units := [unit "a.ts" "let a = 1;", unit "b.ts" "let b = 2;", unit "a.tsx" "let c = 3;"]
    let settings := Assignment.empty.set "declaration" (.bool true)
    let program : Program := ⟨settings, units, Checking.check units settings ⟨3⟩⟩
    store.outputs = .empty ∧
      program.madePaths = ["a.js", "a.d.ts", "b.js", "b.d.ts", "a.js", "a.d.ts"] ∧
      (program.emit store).1.outputs.keys = ["a.js", "a.d.ts", "b.d.ts"] ∧
      (program.emit store).2 = [refusalAt "b.js"] := by
  intro store unit units settings program
  have hnone : store.outputs = .empty := rfl
  have hpaths : program.madePaths = ["a.js", "a.d.ts", "b.js", "b.d.ts", "a.js", "a.d.ts"] := by
    decide +kernel
  obtain ⟨hkeys, hreports, -⟩ := accounts_for_made_paths program hnone
  have hfree : (program.madePaths.filter fun path ↦ !store.fileExists path) =
      ["a.js", "a.d.ts", "b.d.ts", "a.js", "a.d.ts"] := by
    rw [hpaths]
    decide
  have htaken : program.madePaths.filter store.fileExists = ["b.js"] := by
    rw [hpaths]
    decide
  rw [hfree] at hkeys
  rw [htaken] at hreports
  exact ⟨hnone, hpaths, hkeys, hreports⟩

end Program

end VersionSweep
