import VersionSweep.Proofs.Project.UnreachedFile
import VersionSweep.Proofs.Session.MirroredStores

/-!
# Extra files that nothing reaches

What a session compiles to does not depend on an extra file at a path that is no root's, that is
tried by no import and at which nothing is written.
-/

namespace VersionSweep.Session

variable {session : Session}

/-- A session has compiled, or its store is as good as new but for its files. -/
theorem pristine_or_compiled_perform (h : session.Pristine ∨ session.compiled = true)
    (step : Step) : (session.perform step).Pristine ∨ (session.perform step).compiled = true := by
  cases step with
  | prepare preparation =>
    refine h.imp (fun h ↦ h.prepare session.compiler preparation) fun h ↦ ?_
    exact (CompilerInterface.compiled_prepare session.state preparation).trans h
  | compile =>
    refine .inr ?_
    cases hcompiled : session.state.compiled with
    | true =>
      rw [perform, CompilerInterface.perform_compile_of_compiled hcompiled]
      exact hcompiled
    | false => rw [perform, CompilerInterface.perform_compile_of_fresh hcompiled]

theorem pristine_or_compiled_performAll (label : String) (compiler : Compiler) (library : Library)
    (steps : List Step) :
    ((start label compiler library).performAll steps).Pristine ∨
      ((start label compiler library).performAll steps).compiled = true :=
  List.foldlRecOn
    (motive := fun session : Session ↦ session.Pristine ∨ session.compiled = true) steps _
    (.inl (pristine_start label compiler library))
    fun _ hsession step _ ↦ pristine_or_compiled_perform hsession step

def built (session : Session) : Except Interruption (Program × Store) :=
  Program.make session.compiler.dialect session.roots session.settings session.store

def compilation (made : Program × Store) : Compilation :=
  ⟨(made.1.diagnose made.2).1.outputs, (made.1.diagnose made.2).2⟩

theorem compile_fst_of_pristine (h : session.Pristine) :
    session.compile.1 = (session.built.mapError Interruption.failure).map compilation := by
  rw [compile_of_pristine h, built]
  cases Program.make session.compiler.dialect session.roots session.settings session.store <;> rfl

/-- Whether a program does not ask for a path: no import of a loaded file tries it, and nothing is
written there. -/
structure LeavesAlone (session : Session) (program : Program) (key : String) : Prop where
  imports : ∀ unit ∈ program.sources, Loading.Avoids session.store unit.key unit.file key
  outputs : ∀ artifact ∈ Emit.artifacts program.units program.checked.types program.settings,
    session.store.fileExists artifact.path = false →
      VirtualPath.canonical artifact.path ≠ key

instance (session : Session) (program : Program) (key : String) :
    Decidable (session.LeavesAlone program key) :=
  decidable_of_iff
    ((∀ unit ∈ program.sources, Loading.Avoids session.store unit.key unit.file key) ∧
      ∀ artifact ∈ Emit.artifacts program.units program.checked.types program.settings,
        session.store.fileExists artifact.path = false →
          VirtualPath.canonical artifact.path ≠ key)
    ⟨fun h ↦ ⟨h.1, h.2⟩, fun h ↦ ⟨h.imports, h.outputs⟩⟩

theorem built_addExtra (h : session.Pristine) (path text : String)
    (hroots : ∀ root ∈ session.roots, VirtualPath.canonical root ≠ VirtualPath.canonical path)
    (hbuilt : ∀ program after, session.built = .ok (program, after) →
      session.LeavesAlone program (VirtualPath.canonical path)) :
    let files := session.store.files.insert (VirtualPath.canonical path) text
    (session.addExtra path text).built =
      (session.built.mapError (·.withFiles files)).map fun made ↦
        (made.1, made.2.withFiles files) := by
  intro files
  have hgains := session.store.files.gains_insert (VirtualPath.canonical path) text
  have hstore : (session.addExtra path text).store = session.store.withFiles files := by
    have hhandles := (h.addExtra session.compiler path text).handles
    rw [← h.handles] at hhandles
    exact congrArg (fun handles ↦ { session.store with files, handles }) hhandles
  rw [built, hstore]
  exact Program.make_withFiles h.handles hgains hroots fun program after hmade ↦
    (hbuilt program after hmade).imports

theorem sameTexts_of_built (h : session.Pristine) {program : Program} {after : Store}
    (hbuilt : session.built = .ok (program, after)) : after.SameTexts session.store := by
  have hfaithful := Store.faithful_of_handles_eq h.services h.handles
    (Target.ofSettings session.settings)
  obtain ⟨loading, hserved, rfl, -⟩ :=
    Program.exists_loading_of_build hfaithful (Program.build_eq_ok_iff.2 hbuilt)
  exact hserved.same

theorem compilation_withFiles {program : Program} {store : Store} {files : OrderedMap String}
    {key : String} (hfiles : store.files.Gains key files)
    (h : ∀ artifact ∈ Emit.artifacts program.units program.checked.types program.settings,
      store.fileExists artifact.path = false → VirtualPath.canonical artifact.path ≠ key) :
    compilation (program, store.withFiles files) = compilation (program, store) := by
  have hwritten := Emit.writeAll_withFiles hfiles h
  simp only [compilation, Program.diagnose, Program.emit, hwritten]
  rfl

theorem compile_addExtra (h : session.Pristine) (path text : String)
    (hroots : ∀ root ∈ session.roots, VirtualPath.canonical root ≠ VirtualPath.canonical path)
    (hbuilt : ∀ program after, session.built = .ok (program, after) →
      session.LeavesAlone program (VirtualPath.canonical path)) :
    (session.addExtra path text).compile.1 = session.compile.1 := by
  have hadded : (session.addExtra path text).Pristine := h.addExtra session.compiler path text
  rw [compile_fst_of_pristine hadded, compile_fst_of_pristine h,
    built_addExtra h path text hroots hbuilt]
  cases hmade : session.built with
  | error interruption => rfl
  | ok made =>
    obtain ⟨program, after⟩ := made
    have hsame := sameTexts_of_built h hmade
    have hgains : after.files.Gains (VirtualPath.canonical path)
        (session.store.files.insert (VirtualPath.canonical path) text) := by
      rw [hsame.files]
      exact session.store.files.gains_insert (VirtualPath.canonical path) text
    refine congrArg Except.ok (compilation_withFiles hgains fun artifact hartifact hmissing ↦ ?_)
    rw [Store.fileExists, hsame.files] at hmissing
    exact (hbuilt program after hmade).outputs artifact hartifact hmissing

/-- Whatever was done with a session before, an extra file that nothing reaches makes no difference
to what it compiles to. -/
theorem compile_addExtra_of_leavesAlone (label : String) (compiler : Compiler) (library : Library)
    (steps : List Step) (path text : String) :
    let session := (start label compiler library).performAll steps
    (∀ root ∈ session.roots, VirtualPath.canonical root ≠ VirtualPath.canonical path) →
    (∀ program after, session.built = .ok (program, after) →
      session.LeavesAlone program (VirtualPath.canonical path)) →
    (session.addExtra path text).compile.1 = session.compile.1 := by
  intro session hroots hbuilt
  obtain hpristine | hcompiled := pristine_or_compiled_performAll label compiler library steps
  · exact compile_addExtra hpristine path text hroots hbuilt
  · have hcompiled' : (session.addExtra path text).compiled = true := hcompiled
    rw [compile, compile, CompilerInterface.compileOnce_of_compiled _ hcompiled,
      CompilerInterface.compileOnce_of_compiled _ hcompiled']

/-- The declaration file is a candidate, but is not tried, since the file itself is there. -/
theorem compile_addExtra_of_leavesAlone_untried_candidate :
    let session := (start "3.0.0" ⟨"3.0.0"⟩ .bundled).performAll
      [.prepare (.addRoot "main.ts" "import \x7b b \x7d from \"./b\";\nlet c = b;"),
        .prepare (.addExtra "b.ts" "export let b = 1;")]
    "/project/b.d.ts" ∈ (Loading.candidates "/project/" "./b").map VirtualPath.canonical ∧
      (session.addExtra "b.d.ts" "export let b: string;").compile.1 = session.compile.1 := by
  intro session
  have hroots : ∀ root ∈ session.roots,
      VirtualPath.canonical root ≠ VirtualPath.canonical "b.d.ts" := by decide +kernel
  have hleaves : session.built.toOption.all (fun made ↦
      decide (session.LeavesAlone made.1 (VirtualPath.canonical "b.d.ts"))) = true := by
    decide +kernel
  refine ⟨by decide +kernel, compile_addExtra_of_leavesAlone "3.0.0" ⟨"3.0.0"⟩ .bundled _ "b.d.ts" _
    hroots fun program after hmade ↦ ?_⟩
  rw [hmade] at hleaves
  exact of_decide_eq_true hleaves

end VersionSweep.Session
