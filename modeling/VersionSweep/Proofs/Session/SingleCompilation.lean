import VersionSweep.Proofs.Project.Interrupted
import VersionSweep.Proofs.Project.Reporting
import VersionSweep.Proofs.Session.MirroredStores

/-!
# A session compiles once

Whatever is done with a session, the first compilation alone reaches the compiler.  What it wrote
are the outputs of the session from then on, nothing if it failed, and any later compilation fails
and changes nothing.  A compilation that fails leaves the session as it was but for what was parsed.
-/

namespace VersionSweep

section Interface

variable (compiler : Compiler) {session : CompilerInterface.Session Store}

theorem outputs_prepare (preparation : Session.Preparation) :
    (compiler.interface.prepare session preparation).store.outputs = session.store.outputs := by
  refine @CompilerInterface.prepare_keeps Store compiler.interface session
    (fun after ↦ after.store.outputs = session.store.outputs) (fun _ _ _ h ↦ h) (fun _ _ _ h ↦ h)
    (fun state after name raw hset h ↦ ?_) rfl preparation
  rw [CompilerInterface.store_of_set hset]
  exact h

/-- A session that has compiled stays so and keeps its outputs. -/
theorem performAll_of_compiled (h : session.compiled = true) (steps : List Session.Step) :
    (compiler.interface.performAll session steps).compiled = true ∧
      (compiler.interface.performAll session steps).store.outputs = session.store.outputs := by
  refine List.foldlRecOn (motive := fun state : CompilerInterface.Session Store ↦
    state.compiled = true ∧ state.store.outputs = session.store.outputs) steps _ ⟨h, rfl⟩
    fun state hstate step _ ↦ ?_
  cases step with
  | prepare preparation =>
    exact ⟨(CompilerInterface.compiled_prepare state preparation).trans hstate.1,
      (outputs_prepare compiler preparation).trans hstate.2⟩
  | compile =>
    rw [CompilerInterface.perform_compile_of_compiled hstate.1]
    exact hstate

theorem pristine_performAll (h : session.Pristine) {steps : List Session.Step}
    (hsteps : ∀ step ∈ steps, step.compiles = false) :
    (compiler.interface.performAll session steps).Pristine := by
  refine List.foldlRecOn (motive := CompilerInterface.Session.Pristine) steps _ h
    fun state hstate step hstep ↦ ?_
  cases step with
  | prepare preparation => exact hstate.prepare compiler preparation
  | compile => exact absurd (hsteps .compile hstep) (by decide)

end Interface

namespace Session

variable {session : Session}

inductive Operation where
  | step (step : Step)
  | render (diagnostics : List Diagnostic)

def Operation.step? : Operation → Option Step
  | .step taken => some taken
  | .render _ => none

def Operation.compiles : Operation → Bool
  | .step taken => taken.compiles
  | .render _ => false

def operate (session : Session) : Operation → Session
  | .step taken => session.perform taken
  | .render _ => session

def operateAll (session : Session) (operations : List Operation) : Session :=
  operations.foldl operate session

theorem operateAll_eq (session : Session) (operations : List Operation) :
    session.operateAll operations =
      ⟨session.compiler.interface.performAll session.state
        (operations.filterMap Operation.step?), session.label, session.compiler⟩ := by
  induction operations generalizing session with
  | nil => rfl
  | cons operation rest ih =>
    cases operation with
    | step taken => exact ih (session.perform taken)
    | render diagnostics => exact ih session

theorem compiles_eq_false_of_mem_steps {operations : List Operation}
    (h : ∀ operation ∈ operations, operation.compiles = false) :
    ∀ step ∈ operations.filterMap Operation.step?, step.compiles = false := by
  intro step hstep
  obtain ⟨operation, hmem, hoperation⟩ := List.mem_filterMap.1 hstep
  cases operation with
  | step taken =>
    obtain rfl := Option.some.inj hoperation
    exact h _ hmem
  | render diagnostics => cases hoperation

theorem compile_of_compiled (h : session.compiled = true) :
    session.compile = (.error .sessionConsumed, session) := by
  rw [compile, CompilerInterface.compileOnce_of_compiled _ h]

def outputsOf : Except Failure Compilation → OrderedMap String
  | .ok result => result.outputs
  | .error _ => .empty

/-- The first compilation of a session reads and writes, and nothing else is changed by it. -/
theorem changes_of_compile (h : session.Pristine) :
    (∃ store, session.compile.2 = { session with store, compiled := true } ∧
      store.SameTexts session.store) ∧
      session.compile.2.store.outputs = outputsOf session.compile.1 ∧
      ∀ failure, session.compile.1 = .error failure →
        failure.OfReading ∧ session.compile.2.store.ParsedFrom session.store := by
  rw [compile_of_pristine h]
  have hparsed := Program.parsedFrom_make session.compiler.dialect session.roots session.settings
    session.store
  cases hmake : Program.make session.compiler.dialect session.roots session.settings
    session.store with
  | error interruption =>
    rw [hmake] at hparsed
    refine ⟨⟨interruption.store, rfl, hparsed.1.sameTexts⟩, hparsed.1.outputs.trans h.outputs,
      fun failure hfailure ↦ ?_⟩
    obtain rfl := Except.error.inj hfailure
    exact ⟨hparsed.2, hparsed.1⟩
  | ok made =>
    rw [hmake] at hparsed
    exact ⟨⟨_, rfl, (Program.sameTexts_diagnose made.1 made.2).trans hparsed.sameTexts⟩, rfl,
      fun failure hfailure ↦ by cases hfailure⟩

/-- Whatever is done with a session before and after it first compiles: before, it has no outputs
and its compiler was not called.  The compilation gives what the compiler makes of the roots, the
settings and the store of then.  It fails only if a file cannot be read, and then it has parsed at
most; else it changes nothing but what was written and parsed.  From then on the compiler is not
called, the outputs are those of the compilation, and compiling is refused and changes nothing. -/
theorem compiles_once (label : String) (compiler : Compiler) (library : Library)
    (before after : List Operation) (h : ∀ operation ∈ before, operation.compiles = false) :
    let opened := (start label compiler library).operateAll before
    let final := opened.compile.2.operateAll after
    let noting := compiler.interface.noting
    let noted := noting.performAll (noting.start (.empty .language library, []))
      (before.filterMap Operation.step?)
    let notedFinal := noting.performAll noted (.compile :: after.filterMap Operation.step?)
    opened.store.outputs = .empty ∧ noted = opened.state.withStore (opened.store, []) ∧
      opened.compile.1 =
        (compiler.interface.compile opened.roots opened.settings opened.store).1 ∧
      (∀ failure, opened.compile.1 = .error failure →
        failure.OfReading ∧ opened.compile.2.store.ParsedFrom opened.store) ∧
      (∃ store, opened.compile.2 = { opened with store, compiled := true } ∧
        store.SameTexts opened.store) ∧
      final.store.outputs = outputsOf opened.compile.1 ∧
      final.compile = (.error .sessionConsumed, final) ∧
      notedFinal = final.state.withStore
        (final.store, [⟨opened.roots, opened.settings, opened.store⟩]) := by
  intro opened final noting noted notedFinal
  have hsteps := compiles_eq_false_of_mem_steps h
  let state := (start label compiler library).state
  have hopened : opened =
      ⟨compiler.interface.performAll state (before.filterMap Operation.step?), label, compiler⟩ :=
    operateAll_eq _ _
  have hcompiler : opened.compiler = compiler := by rw [hopened]
  have hpristine : opened.Pristine := by
    rw [hopened]
    exact pristine_performAll compiler (pristine_start label compiler library) hsteps
  obtain ⟨hclosed, houtputs, hfailure⟩ := changes_of_compile hpristine
  have hcompiled : opened.compile.2.state.compiled = true := by
    obtain ⟨store, hstore, -⟩ := hclosed
    rw [hstore]
  have hfinal : final.state = compiler.interface.performAll opened.compile.2.state
      (after.filterMap Operation.step?) := by
    rw [← hcompiler, show final = opened.compile.2.operateAll after from rfl, operateAll_eq]
    rfl
  obtain ⟨hfinalCompiled, hfinalOutputs⟩ :=
    performAll_of_compiled compiler hcompiled (after.filterMap Operation.step?)
  rw [← hfinal] at hfinalCompiled hfinalOutputs
  -- The compiler that notes its calls is beside the other one all along.
  have hnoted : noted = opened.state.withStore (opened.store, []) := by
    rw [hopened]
    exact compiler.interface.noting_performAll state hsteps
  have hrun : final.state = compiler.interface.performAll opened.state
      (.compile :: after.filterMap Operation.step?) := by
    rw [hfinal, ← hcompiler]
    rfl
  refine ⟨hpristine.outputs, hnoted, ?_, hfailure, hclosed, hfinalOutputs.trans houtputs,
    compile_of_compiled hfinalCompiled, ?_⟩
  · rw [compile, CompilerInterface.compileOnce_of_fresh _ hpristine.compiled, hcompiler]
  · rw [show notedFinal = noting.performAll noted (.compile :: _) from rfl, hnoted, hrun]
    exact compiler.interface.noting_performAll_compile hpristine.compiled _

/-- The library file and one root are parsed before the other root turns out not to be readable. -/
theorem compiles_once_missing_library_file :
    let before : List Operation :=
      [.step (.prepare (.addRoot "a.ts" "let a = 1;")), .render [],
        .step (.prepare (.addRoot "/libs/ghost.ts" "let b = 2;")),
        .step (.prepare (.set "strict" "perhaps"))]
    let after : List Operation :=
      [.step .compile, .step (.prepare (.addRoot "c.ts" "let c = 3;")), .step .compile]
    let opened := (start "3.0.0" ⟨"3.0.0"⟩ .bundled).operateAll before
    let final := opened.compile.2.operateAll after
    let noting := (Compiler.mk "3.0.0").interface.noting
    let noted := noting.performAll (noting.start (.empty .language .bundled, []))
      (before.filterMap Operation.step?)
    let notedFinal := noting.performAll noted (.compile :: after.filterMap Operation.step?)
    opened.compile.1 = .error (.libraryRead "lib/ghost.ts" ReadFailure.missing.reason) ∧
      opened.compile.2.store.handles.keys = ["/libs/lib.d.ts", "/project/a.ts"] ∧
      opened.compile.2.store.ParsedFrom opened.store ∧
      final.roots = ["a.ts", "/libs/ghost.ts", "c.ts"] ∧ final.store.outputs = .empty ∧
      final.compile = (.error .sessionConsumed, final) ∧
      notedFinal.store.2 = [⟨opened.roots, opened.settings, opened.store⟩] := by
  intro before after opened final noting noted notedFinal
  have hfailed : (match opened.compile.1 with
      | .ok _ => false
      | .error failure =>
        failure = .libraryRead "lib/ghost.ts" ReadFailure.missing.reason) = true := by
    decide +kernel
  have houtcome : opened.compile.1 =
      .error (.libraryRead "lib/ghost.ts" ReadFailure.missing.reason) := by
    cases hcompile : opened.compile.1 with
    | ok result =>
      rw [hcompile] at hfailed
      cases hfailed
    | error failure =>
      rw [hcompile] at hfailed
      rw [of_decide_eq_true hfailed]
  obtain ⟨-, -, -, hfailure, -, houtputs, hconsumed, hnoted⟩ :=
    compiles_once "3.0.0" ⟨"3.0.0"⟩ .bundled before after (by decide)
  exact ⟨houtcome, by decide +kernel, (hfailure _ houtcome).2, by decide +kernel,
    houtputs.trans (congrArg outputsOf houtcome), hconsumed,
    congrArg (fun session ↦ session.store.2) hnoted⟩

end Session

end VersionSweep
