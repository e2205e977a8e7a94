import Mathlib.Data.List.Nodup
import Mathlib.Data.Nat.Find
import VersionSweep.Proofs.Project.Reporting

/-!
# Outputs that share a path

What is made from a unit is refused where a file exists, and this is reported.  Everything else is
written, and the last text for a path counts.  Units may share their paths, which are made from the
names without their endings, and with an output folder from the bare names alone.  So a path holds
what was made from the last unit that has it.
-/

namespace VersionSweep

namespace Emit

variable {store : Store}

def Artifact.refusal (artifact : Artifact) : Diagnostic :=
  (Problem.wouldOverwriteInput (VirtualPath.canonical artifact.path)).toDiagnostic

theorem writeAll_append (store : Store) (artifacts others : List Artifact) :
    writeAll store (artifacts ++ others) =
      ((writeAll (writeAll store artifacts).1 others).1,
        (writeAll store artifacts).2 ++ (writeAll (writeAll store artifacts).1 others).2) := by
  induction artifacts generalizing store with
  | nil => rfl
  | cons artifact rest ih => simp only [List.cons_append, writeAll, ih, List.append_assoc]

theorem fileExists_writeAll (store : Store) (artifacts : List Artifact) (path : String) :
    (writeAll store artifacts).1.fileExists path = store.fileExists path := by
  rw [Store.fileExists, Store.fileExists, (sameTexts_writeAll store artifacts).files]

theorem refusal_mem_writeAll {artifacts : List Artifact} {artifact : Artifact}
    (hmem : artifact ∈ artifacts) (hexists : store.fileExists artifact.path = true) :
    artifact.refusal ∈ (writeAll store artifacts).2 := by
  obtain ⟨before, after, rfl⟩ := List.append_of_mem hmem
  rw [writeAll_append]
  refine List.mem_append_right _ ?_
  simp [writeAll, write, fileExists_writeAll, hexists, Artifact.refusal]

theorem get?_outputs_writeAll_of_ne {artifacts : List Artifact} {path : String}
    (h : ∀ artifact ∈ artifacts, artifact.path ≠ path) :
    (writeAll store artifacts).1.outputs.get? path = store.outputs.get? path := by
  induction artifacts generalizing store with
  | nil => rfl
  | cons artifact rest ih =>
    obtain ⟨hartifact, hrest⟩ := List.forall_mem_cons.1 h
    have hwrite : (write artifact store).1.outputs.get? path = store.outputs.get? path := by
      unfold write
      split
      · rfl
      · rw [Store.putOutput, OrderedMap.get?_insert, if_neg hartifact]
    exact (ih hrest).trans hwrite

/-- Where no file exists, the last artifact for a path is the one that is kept. -/
theorem get?_outputs_writeAll {before after : List Artifact} {artifact : Artifact}
    (hexists : store.fileExists artifact.path = false)
    (hlast : ∀ other ∈ after, other.path ≠ artifact.path) :
    (writeAll store (before ++ artifact :: after)).1.outputs.get? artifact.path =
      some artifact.text := by
  have hwrite (written : Store) (h : written.fileExists artifact.path = false) :
      (write artifact written).1.outputs.get? artifact.path = some artifact.text := by
    rw [write, if_neg (by rw [h]; decide), Store.putOutput, OrderedMap.get?_insert, if_pos rfl]
  rw [writeAll_append, writeAll]
  exact (get?_outputs_writeAll_of_ne hlast).trans (hwrite _ (by rw [fileExists_writeAll, hexists]))

theorem exists_outputPath_eq_append (name : String) (folder : Option String) :
    ∃ stem, ∀ ending, outputPath name ending folder = stem ++ ending := by
  cases folder with
  | none => exact ⟨_, fun _ ↦ rfl⟩
  | some folder => exact ⟨_, fun _ ↦ rfl⟩

/-- The script and the declarations of a unit have paths of their own. -/
theorem nodup_paths_unitArtifacts (settings : Assignment) (typeOf : ℕ → Option BasicType)
    (unit : SourceUnit) : ((unitArtifacts settings typeOf unit).map Artifact.path).Nodup := by
  obtain ⟨stem, hstem⟩ := exists_outputPath_eq_append unit.file.name (settings.string? "outDir")
  have hne : ¬ stem ++ ".js" = stem ++ ".d.ts" := fun h ↦ by simp at h
  unfold unitArtifacts
  split
  · exact List.nodup_nil
  · dsimp only
    rw [hstem, hstem]
    split <;> simp [hne]

end Emit

namespace Program

open Emit

variable {program : Program}

def artifactsOf (program : Program) (index : ℕ) (unit : SourceUnit) : List Artifact :=
  unitArtifacts program.settings (fun statement ↦ program.checked.types.lookup (index, statement))
    unit

def Makes (program : Program) (index : ℕ) (path : String) : Prop :=
  ∃ unit, program.units[index]? = some unit ∧
    ∃ artifact ∈ program.artifactsOf index unit, artifact.path = path

theorem artifacts_eq_append (hemit : program.settings.flag "noEmit" = false) {index : ℕ}
    {unit : SourceUnit} (hunit : program.units[index]? = some unit) :
    ∃ before after, artifacts program.units program.checked.types program.settings =
        before ++ program.artifactsOf index unit ++ after ∧
      ∀ artifact ∈ after, ∃ later > index, program.Makes later artifact.path := by
  obtain ⟨hlt, rfl⟩ := List.getElem?_eq_some_iff.1 hunit
  have hnumbered : index < program.units.zipIdx.length := by simpa using hlt
  have hsplit := List.take_append_drop index program.units.zipIdx
  rw [List.drop_eq_getElem_cons hnumbered, List.getElem_zipIdx, Nat.zero_add] at hsplit
  refine ⟨(program.units.zipIdx.take index).flatMap fun entry ↦
      program.artifactsOf entry.2 entry.1,
    (program.units.zipIdx.drop (index + 1)).flatMap fun entry ↦
      program.artifactsOf entry.2 entry.1, ?_, fun artifact hartifact ↦ ?_⟩
  · rw [artifacts, if_neg (by rw [hemit]; decide)]
    conv_lhs => rw [← hsplit]
    rw [List.flatMap_append, List.flatMap_cons, List.append_assoc]
    rfl
  · obtain ⟨⟨later, number⟩, hentry, hmade⟩ := List.mem_flatMap.1 hartifact
    obtain ⟨i, hi, heq⟩ := List.getElem_of_mem hentry
    rw [List.getElem_drop, List.getElem_zipIdx, Nat.zero_add] at heq
    obtain ⟨rfl, rfl⟩ := Prod.mk.inj heq
    exact ⟨_, by omega, _, List.getElem?_eq_getElem _, artifact, hmade, rfl⟩

/-- Where no file exists, the text is kept that was made from the last unit with the path. -/
theorem get?_outputs_emit {store : Store} (hemit : program.settings.flag "noEmit" = false)
    {last : ℕ} {unit : SourceUnit} (hunit : program.units[last]? = some unit)
    {kept : Artifact} (hkept : kept ∈ program.artifactsOf last unit)
    (hexists : store.fileExists kept.path = false)
    (hgreatest : ∀ later > last, ¬ program.Makes later kept.path) :
    (program.emit store).1.outputs.get? kept.path = some kept.text := by
  obtain ⟨before, after, hsplit, hafter⟩ := artifacts_eq_append hemit hunit
  obtain ⟨left, right, hsame⟩ := List.append_of_mem hkept
  have hright : ∀ other ∈ right, other.path ≠ kept.path := by
    have hnodup : ((program.artifactsOf last unit).map Artifact.path).Nodup :=
      nodup_paths_unitArtifacts ..
    rw [hsame, List.map_append, List.map_cons] at hnodup
    intro other hother heq
    have hnotMem := (List.nodup_cons.1 (List.nodup_append.1 hnodup).2.1).1
    exact hnotMem (heq ▸ List.mem_map_of_mem hother)
  have hlast : ∀ other ∈ right ++ after, other.path ≠ kept.path := by
    intro other hother heq
    rcases List.mem_append.1 hother with hother | hother
    · exact hright other hother heq
    · obtain ⟨later, hlater, hmakes⟩ := hafter other hother
      exact hgreatest later hlater (heq ▸ hmakes)
  have hall : artifacts program.units program.checked.types program.settings =
      (before ++ left) ++ kept :: (right ++ after) := by
    rw [hsplit, hsame]
    simp only [List.append_assoc, List.cons_append]
  rw [emit, hall]
  exact get?_outputs_writeAll hexists hlast

/-- Of what is made from the units, an artifact at the path of a file is reported.  At any other
path the text is kept that was made from the last unit with this path, which is the artifact's own
text if no later unit shares its path. -/
theorem kept_or_refused_of_emit (store : Store) (hemit : program.settings.flag "noEmit" = false)
    {index : ℕ} {unit : SourceUnit} (hunit : program.units[index]? = some unit)
    {artifact : Artifact} (hartifact : artifact ∈ program.artifactsOf index unit) :
    (store.fileExists artifact.path = true ∧ artifact.refusal ∈ (program.emit store).2) ∨
    (store.fileExists artifact.path = false ∧
      ∃ last ≥ index, ∃ other kept, program.units[last]? = some other ∧
        kept ∈ program.artifactsOf last other ∧ kept.path = artifact.path ∧
        (program.emit store).1.outputs.get? artifact.path = some kept.text ∧
        (last = index → kept = artifact) ∧
        ∀ later > last, ¬ program.Makes later artifact.path) := by
  classical
  obtain ⟨before, after, hsplit, -⟩ := artifacts_eq_append hemit hunit
  cases hexists : store.fileExists artifact.path with
  | true =>
    refine .inl ⟨rfl, refusal_mem_writeAll ?_ hexists⟩
    rw [hsplit]
    exact List.mem_append_left _ (List.mem_append_right _ hartifact)
  | false =>
    refine .inr ⟨rfl, ?_⟩
    have hmakes : program.Makes index artifact.path := ⟨unit, hunit, artifact, hartifact, rfl⟩
    have hbound (number : ℕ) (h : program.Makes number artifact.path) :
        number ≤ program.units.length := by
      obtain ⟨other, hother, -⟩ := h
      exact Nat.le_of_lt (List.getElem?_eq_some_iff.1 hother).1
    -- The last unit that makes something at the path decides.
    obtain ⟨last, hlast⟩ : ∃ last, last =
        Nat.findGreatest (fun number ↦ program.Makes number artifact.path) program.units.length :=
      ⟨_, rfl⟩
    have hle : index ≤ last := hlast ▸ Nat.le_findGreatest (hbound index hmakes) hmakes
    have hgreatest (later : ℕ) (hlater : later > last) : ¬ program.Makes later artifact.path :=
      fun h ↦ Nat.findGreatest_is_greatest (hlast ▸ hlater) (hbound later h) h
    obtain ⟨other, hother, kept, hkept, hpath⟩ : program.Makes last artifact.path := by
      rw [hlast]
      exact Nat.findGreatest_spec (P := fun number ↦ program.Makes number artifact.path)
        (hbound index hmakes) hmakes
    refine ⟨last, hle, other, kept, hother, hkept, hpath, ?_, ?_, hgreatest⟩
    · rw [← hpath]
      exact get?_outputs_emit hemit hother hkept (hpath ▸ hexists) (hpath ▸ hgreatest)
    · rintro rfl
      obtain rfl : unit = other := Option.some.inj (hunit.symm.trans hother)
      exact List.inj_on_of_nodup_map (nodup_paths_unitArtifacts _ _ _) hkept hartifact hpath

theorem kept_or_refused_of_emit_same_stem :
    let store := (Store.empty .language .bundled).addFile "b.js" ""
    let unit (name text : String) : SourceUnit :=
      ⟨SourceFile.parse name text 1, VirtualPath.canonical name, false, []⟩
    let units := [unit "a.ts" "let a = 1;", unit "b.ts" "let b = 2;", unit "a.tsx" "let c = 3;"]
    let program : Program := ⟨.empty, units, Checking.check units .empty ⟨3⟩⟩
    (∃ last > 0, ∃ other kept, program.units[last]? = some other ∧
      kept ∈ program.artifactsOf last other ∧ kept.path = "a.js" ∧
      (program.emit store).1.outputs.get? "a.js" = some kept.text) ∧
    Artifact.refusal ⟨"b.js", "var b = 2;\r\n"⟩ ∈ (program.emit store).2 := by
  intro store unit units program
  have hemit : program.settings.flag "noEmit" = false := by decide
  have hunit : program.units[0]? = some (unit "a.ts" "let a = 1;") := rfl
  have hother : program.units[1]? = some (unit "b.ts" "let b = 2;") := rfl
  have hfirst : (⟨"a.js", "var a = 1;\r\n"⟩ : Artifact) ∈
      program.artifactsOf 0 (unit "a.ts" "let a = 1;") := by decide +kernel
  have hsecond : (⟨"b.js", "var b = 2;\r\n"⟩ : Artifact) ∈
      program.artifactsOf 1 (unit "b.ts" "let b = 2;") := by decide +kernel
  constructor
  · obtain ⟨hexists, -⟩ | ⟨-, last, hle, other, kept, hother, hkept, hpath, hget, hown, -⟩ :=
      kept_or_refused_of_emit store hemit hunit hfirst
    · exact absurd hexists (by decide)
    · refine ⟨last, Nat.pos_of_ne_zero fun hzero ↦ ?_, other, kept, hother, hkept, hpath, hget⟩
      rw [hown hzero] at hget
      exact absurd hget (by decide +kernel)
  · obtain ⟨-, hrefused⟩ | ⟨hexists, -⟩ :=
      kept_or_refused_of_emit store hemit hother hsecond
    · exact hrefused
    · exact absurd hexists (by decide)

/-- The script of a unit can be lost without a report: a later unit with the same stem is written
over it. -/
theorem script_lost_of_same_stem :
    let store := ((Store.empty .language .bundled).addFile "a.ts" "let a = 1;").addFile "a.tsx"
      "let b = 2;"
    let script : Artifact := ⟨"a.js", "var a = 1;\r\n"⟩
    ∃ program after, build ⟨3⟩ ["a.ts", "a.tsx"] .empty store = .ok (program, after) ∧
      program.settings.flag "noEmit" = false ∧
      (∃ unit, program.units[1]? = some unit ∧ script ∈ program.artifactsOf 1 unit) ∧
      (program.emit after).1.outputs.get? script.path = some "var b = 2;\r\n" ∧
      (program.emit after).2 = [] := by
  intro store script
  have hlost : ((build ⟨3⟩ ["a.ts", "a.tsx"] .empty store).toOption.any fun (program, after) ↦
      !program.settings.flag "noEmit" &&
      program.units[1]?.any (fun unit ↦ decide (script ∈ program.artifactsOf 1 unit)) &&
      (program.emit after).1.outputs.get? script.path == some "var b = 2;\r\n" &&
      (program.emit after).2.isEmpty) = true := by
    decide +kernel
  cases hmade : build ⟨3⟩ ["a.ts", "a.tsx"] .empty store with
  | error failure =>
    rw [hmade] at hlost
    cases hlost
  | ok made =>
    rw [hmade] at hlost
    simp only [Except.toOption, Option.any_some, Bool.and_eq_true, Bool.not_eq_true', beq_iff_eq,
      List.isEmpty_iff] at hlost
    obtain ⟨⟨⟨hemit, hscript⟩, hkept⟩, hsilent⟩ := hlost
    obtain ⟨unit, hunit, hmem⟩ := (Option.any_eq_true _ _).1 hscript
    exact ⟨made.1, made.2, rfl, hemit, ⟨unit, hunit, of_decide_eq_true hmem⟩, hkept, hsilent⟩

end Program

end VersionSweep
