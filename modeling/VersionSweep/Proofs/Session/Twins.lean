import Mathlib.Data.List.Forall2
import VersionSweep.Proofs.Project.Serving
import VersionSweep.Proofs.Session.Preparation
import VersionSweep.Proofs.Typing.DialectUniformity
import VersionSweep.Registry

/-!
# Twin sessions

Twin sessions differ in nothing but their compiler versions.  As long as their catalogs know the
same settings under the names that come up, a snippet makes twins of twins, or fails on both in the
same way.  Compiled, twins write the same files, and they report the same but for the way in which
their dialects name a literal.
-/

namespace VersionSweep

/-- Whether two diagnostics are the same, or are what two dialects make of one telling sketch. -/
def Diagnostic.Alike (d e : Dialect) (first second : Diagnostic) : Prop :=
  first = second ∨ ∃ report : Sketch × String, report.1.Telling ∧
    first = Sketch.diagnostic d report ∧ second = Sketch.diagnostic e report

theorem Diagnostic.forall₂_alike_same {d e : Dialect} (diagnostics : List Diagnostic) :
    List.Forall₂ (Alike d e) diagnostics diagnostics :=
  List.forall₂_same.2 fun _ _ ↦ .inl rfl

theorem Diagnostic.forall₂_alike_reports {d e : Dialect} {reports : List (Sketch × String)}
    (h : ∀ report ∈ reports, report.1.Telling) :
    List.Forall₂ (Alike d e) (reports.map (Sketch.diagnostic d))
      (reports.map (Sketch.diagnostic e)) := by
  rw [List.forall₂_map_left_iff, List.forall₂_map_right_iff, List.forall₂_same]
  exact fun report hreport ↦ .inr ⟨report, h report hreport, rfl, rfl⟩

theorem Sketch.diagnostic_eq {d e : Dialect} (h : d.namesLiterals = e.namesLiterals)
    (report : Sketch × String) : diagnostic d report = diagnostic e report := by
  obtain ⟨sketch, file⟩ := report
  cases sketch with
  | settled finding => rfl
  | assignment source target span =>
    have hdescribe : source.describe d = source.describe e := by
      rw [ExprType.describe, ExprType.describe, h]
    simp only [diagnostic, finding, hdescribe]

theorem Diagnostic.eq_of_forall₂_alike {d e : Dialect} (h : d.namesLiterals = e.namesLiterals)
    {first second : List Diagnostic} (halike : List.Forall₂ (Alike d e) first second) :
    first = second := by
  refine List.forall₂_eq_eq_eq ▸ halike.imp ?_
  rintro x y (rfl | ⟨report, -, rfl, rfl⟩)
  · rfl
  · exact Sketch.diagnostic_eq h report

def Program.worded (settings : Assignment) (units : List SourceUnit)
    (reports : List (Sketch × String)) (types : List ((Nat × Nat) × BasicType))
    (dialect : Dialect) : Program :=
  ⟨settings, units, ⟨reports.map (Sketch.diagnostic dialect), types⟩⟩

/-- Loading does not look at the dialect, so a program fails in all dialects or is worded by each.
-/
theorem Program.exists_worded_of_faithful {settings : Assignment} {store : Store}
    (h : store.Faithful (Target.ofSettings settings)) (roots : List String) :
    (∃ interruption, ∀ dialect, make dialect roots settings store = .error interruption) ∨
    ∃ units reports types after, (∀ report ∈ reports, report.1.Telling) ∧
      ∀ dialect, make dialect roots settings store =
        .ok (worded settings units reports types dialect, after) := by
  obtain hstopped | ⟨loading, hserved, hmade⟩ := make_cases h roots
  · exact .inl hstopped
  · obtain ⟨reports, types, htelling, hchecked⟩ := Checking.exists_reports_check
      (fun unit hunit ↦ (hserved.readFrom_of_mem_units hunit).sound) settings
    refine .inr ⟨loading.units, reports, types, loading.store, htelling, fun dialect ↦ ?_⟩
    rw [hmade, hchecked, worded]

def Compiler.KnowAlike (compiler other : Compiler) (entries : List Entry) : Prop :=
  ∀ name raw line, Entry.setting name raw line ∈ entries →
    compiler.catalog.lookup name = other.catalog.lookup name

/-- Compilers that know the same settings let a snippet make the same of a session. -/
theorem Compiler.KnowAlike.replayEntries_eq {compiler other : Compiler} {entries : List Entry}
    (h : compiler.KnowAlike other entries) (state : CompilerInterface.Session Store) :
    Snippet.replayEntries compiler.interface.target state entries =
      Snippet.replayEntries other.interface.target state entries := by
  induction entries generalizing state with
  | nil => rfl
  | cons entry rest ih =>
    have hrest : compiler.KnowAlike other rest := fun name raw line hmem ↦
      h name raw line (List.mem_cons_of_mem _ hmem)
    cases entry with
    | file name content => exact ih hrest _
    | setting name raw line =>
      have hlookup : compiler.interface.catalog.lookup name =
          other.interface.catalog.lookup name := h name raw line (List.mem_cons_self ..)
      have hset : compiler.interface.target.set name raw state =
          other.interface.target.set name raw state := by
        simp only [CompilerInterface.target, CompilerInterface.set, hlookup]
      rw [Snippet.replayEntries, Snippet.replayEntries, hset]
      cases other.interface.target.set name raw state with
      | error failure => rfl
      | ok after => exact ih hrest after

namespace Session

theorem alike_diagnose_worded (d e : Dialect) (settings : Assignment) (units : List SourceUnit)
    {reports : List (Sketch × String)} (htelling : ∀ report ∈ reports, report.1.Telling)
    (types : List ((Nat × Nat) × BasicType)) (store : Store) :
    ((Program.worded settings units reports types d).diagnose store).1 =
      ((Program.worded settings units reports types e).diagnose store).1 ∧
    List.Forall₂ (Diagnostic.Alike d e)
      ((Program.worded settings units reports types d).diagnose store).2
      ((Program.worded settings units reports types e).diagnose store).2 := by
  refine ⟨rfl, ?_⟩
  have hsame := Diagnostic.forall₂_alike_same (d := d) (e := e)
  refine List.rel_append (List.rel_append (List.rel_append (List.rel_append (List.rel_append
    ?_ ?_) ?_) ?_) ?_) ?_
  · exact hsame _
  · exact Diagnostic.forall₂_alike_reports htelling
  · exact hsame _
  · exact hsame _
  · exact hsame _
  · exact hsame _

/-- Whether two compilations wrote the same and reported alike, and left the same files. -/
structure CompiledAlike (d e : Dialect) (first second : Compilation × Session) : Prop where
  outputs : first.1.outputs = second.1.outputs
  diagnostics : List.Forall₂ (Diagnostic.Alike d e) first.1.diagnostics second.1.diagnostics
  store : first.2.store = second.2.store

/-- Sessions that differ at most in their labels and compiler versions fail in one way or compile
alike. -/
theorem compile_cases_of_state_eq {first second : Session} (h : first.state = second.state)
    (hpristine : first.Pristine) :
    (∃ failure final final', first.compile = (.error failure, final) ∧
      second.compile = (.error failure, final')) ∨
    ∃ result result' final final', first.compile = (.ok result, final) ∧
      second.compile = (.ok result', final') ∧
      CompiledAlike first.compiler.dialect second.compiler.dialect (result, final)
        (result', final') := by
  have hpristine' : second.Pristine := h ▸ hpristine
  rw [compile_of_pristine hpristine, compile_of_pristine hpristine', ← h]
  have hfaithful := Store.faithful_of_handles_eq hpristine.services hpristine.handles
    (Target.ofSettings first.settings)
  obtain ⟨interruption, hstopped⟩ | ⟨units, reports, types, after, htelling, hmade⟩ :=
    Program.exists_worded_of_faithful hfaithful first.roots
  · rw [hstopped, hstopped]
    exact .inl ⟨interruption.failure, _, _, rfl, rfl⟩
  · rw [hmade, hmade]
    obtain ⟨hstore, hdiagnostics⟩ := alike_diagnose_worded first.compiler.dialect
      second.compiler.dialect first.settings units htelling types after
    exact .inr ⟨_, _, _, _, rfl, rfl, ⟨congrArg Store.outputs hstore, hdiagnostics, hstore⟩⟩

end Session

end VersionSweep
