import VersionSweep.Proofs.Report.Adjacency
import VersionSweep.Proofs.Report.VersionAgreement
import VersionSweep.Proofs.Text.Divergence

/-!
# Drift that a limit hides

Two versions that compile a snippet give as many diagnostics as each other, so beyond a limit their
blocks show the same count.  The blocks are the same exactly when the rendered diagnostics up to the
limit are the same: a difference is seen if it shows before the limit and is hidden if not.
-/

namespace VersionSweep

open Text

theorem ExprType.Telling.describe {source : ExprType} (h : source.Telling) (d e : Dialect) :
    EqOrDiverge (source.describe d) (source.describe e) := by
  obtain ⟨type, literal⟩ := source
  cases literal with
  | none => exact .inl rfl
  | some text =>
    obtain ⟨c, rest, htext, hword⟩ := h text rfl
    have hdiverge : Diverge text type.word := by
      cases hchars : type.word.toList with
      | nil => cases type <;> simp [BasicType.word] at hchars
      | cons first others =>
        refine diverge_of_cons htext hchars ?_
        rintro rfl
        exact hword (by rw [hchars]; rfl)
    unfold ExprType.describe
    cases d.namesLiterals with
    | true =>
      cases e.namesLiterals with
      | true => exact .inl rfl
      | false => exact .inr hdiverge
    | false =>
      cases e.namesLiterals with
      | true => exact .inr hdiverge.symm
      | false => exact .inl rfl

namespace Diagnostic

theorem flatten_notAssignable (source target : String) :
    (Problem.notAssignable source target).message.flatten =
      "Type '" ++ (source ++ ("' is not assignable to type '" ++ target ++ "'.")) := by
  have hflatten : (Problem.notAssignable source target).message.flatten =
      "" ++ ("Type '" ++ source ++ "' is not assignable to type '" ++ target ++ "'.") := rfl
  rw [hflatten, String.empty_append]
  simp only [String.append_assoc]

theorem eqOrDiverge_render (problem problem' : Problem) (hcode : problem.code = problem'.code)
    (hmessage : EqOrDiverge problem.message.flatten problem'.message.flatten) (span : Span)
    (file : String) (source : Option String) :
    EqOrDiverge ((Finding.toDiagnostic ⟨problem, span⟩ file).render source)
      ((Finding.toDiagnostic ⟨problem', span⟩ file).render source) := by
  cases source with
  | none => exact hmessage
  | some text =>
    obtain ⟨rows, hrows⟩ := Option.isSome_iff_exists.1
      (Excerpt.isSome_rows? ⟨file, span.start, span.length⟩ text.toList)
    obtain ⟨before, hbefore⟩ := exists_stack_append_singleton rows
    rw [render_of_rows? rfl hrows, render_of_rows? rfl hrows, hbefore, hbefore]
    simp only [Finding.toDiagnostic, hcode]
    exact (hmessage.prepend _).prepend _

theorem Alike.render {d e : Dialect} {first second : Diagnostic} (h : Alike d e first second)
    (source : Option String) :
    EqOrDiverge (first.render source) (second.render source) := by
  obtain rfl | ⟨⟨sketch, file⟩, htelling, rfl, rfl⟩ := h
  · exact .inl rfl
  cases sketch with
  | settled finding => exact .inl rfl
  | assignment value target span =>
    refine eqOrDiverge_render (.notAssignable (value.describe d) target.word)
      (.notAssignable (value.describe e) target.word) rfl ?_ span file source
    rw [flatten_notAssignable, flatten_notAssignable]
    exact ((ExprType.Telling.describe htelling d e).append _).prepend _

end Diagnostic

theorem Session.CompiledAlike.forall₂_render {d e : Dialect}
    {first second : Compilation × Session} (h : CompiledAlike d e first second) :
    List.Forall₂ EqOrDiverge (first.2.render first.1.diagnostics)
      (second.2.render second.1.diagnostics) := by
  rw [render, render, List.forall₂_map_left_iff, List.forall₂_map_right_iff, h.store]
  refine h.diagnostics.imp fun x y halike ↦ ?_
  rw [halike.agrees.location]
  exact halike.render _

namespace Block

theorem shownDiagnostics_some (limit : Nat) (rows : List String) :
    shownDiagnostics (some limit) rows = rows.take limit ++
      if rows.length > limit then [overflowRow (rows.length - limit)] else [] := by
  rw [shownDiagnostics]
  split
  · rfl
  · rename_i hlength
    rw [List.take_of_length_le (by omega), List.append_nil]

/-- A limit makes blocks of rows that can be told apart the same exactly when it cuts the rows to
the same ones. -/
theorem render_eq_iff_take_eq {rows rows' : List String}
    (h : List.Forall₂ EqOrDiverge rows rows') (limit : Nat) (showsOutputs : Bool)
    (outputs : OrderedMap String) :
    render ⟨some limit, showsOutputs⟩ rows outputs =
        render ⟨some limit, showsOutputs⟩ rows' outputs ↔
      rows.take limit = rows'.take limit := by
  unfold render
  rw [shownDiagnostics_some, shownDiagnostics_some, h.length_eq, List.append_assoc,
    List.append_assoc]
  exact stack_append_inj (List.forall₂_take limit h) _

end Block

namespace Report

theorem sameAsPrevious_iff_block_eq {versions : List Version} {force : Bool}
    {options : BlockOptions} {snippet : Snippet} {i : Nat} {v w : Version} {later : ReportEntry}
    (hv : versions[i]? = some v) (hw : versions[i + 1]? = some w)
    (hlater : (ofSnippet versions force options snippet).entries[i + 1]? = some later) :
    later.sameAsPrevious = true ↔
      (VersionRun.ofVersion options snippet v).block =
        (VersionRun.ofVersion options snippet w).block := by
  have hcompared := (comparedWith_of_getElem?_ofSnippet hlater).same
  obtain ⟨w', hw', hrun⟩ := exists_version_of_getElem? hlater
  obtain rfl : w = w' := Option.some.inj (hw.symm.trans hw')
  obtain ⟨earlier, hearlier⟩ : ∃ earlier,
      (ofSnippet versions force options snippet).entries[i]? = some earlier := by
    have hlt := (List.getElem?_eq_some_iff.1 hlater).1
    exact ⟨_, List.getElem?_eq_getElem (by omega)⟩
  obtain ⟨v', hv', hearlierRun⟩ := exists_version_of_getElem? hearlier
  obtain rfl : v = v' := Option.some.inj (hv.symm.trans hv')
  have hbefore : blockBefore? (ofSnippet versions force options snippet).entries (i + 1) =
      some earlier.run.block := by
    rw [blockBefore?, hearlier, Option.map_some]
  rw [← hearlierRun, ← hrun]
  refine hcompared.trans ?_
  rw [hbefore, Option.some.injEq]

/-- Of two neighbours with one library that both compile a snippet, the later one is the same as the
earlier one exactly if the limit cuts their complete lists of diagnostics to the same rows.  So a
drift that begins beyond the limit is hidden, and no other. -/
theorem sameAsPrevious_iff_take_eq {versions : List Version} {force : Bool} {limit : Nat}
    {showsOutputs : Bool} {snippet : Snippet} {i : Nat} {v w : Version} {later : ReportEntry}
    {first second : Compilation × Session} (hv : versions[i]? = some v)
    (hw : versions[i + 1]? = some w) (hlibrary : v.library = w.library)
    (hfirst : v.compile snippet = .ok first) (hsecond : w.compile snippet = .ok second)
    (hlater : (ofSnippet versions force ⟨some limit, showsOutputs⟩ snippet).entries[i + 1]? =
      some later) :
    later.sameAsPrevious = true ↔
      (first.2.render first.1.diagnostics).take limit =
        (second.2.render second.1.diagnostics).take limit := by
  -- Both versions took the snippet, so neither of them is missing one of its settings.
  have hknow := Compiler.knowAlike_of_replayEntries (Version.load_failure_of_compile hfirst)
    (Version.load_failure_of_compile hsecond)
  obtain ⟨failure, herror, -⟩ | ⟨first', second', hfirst', hsecond', halike⟩ :=
    Version.compile_cases hlibrary hknow
  · rw [hfirst] at herror
    cases herror
  · obtain rfl := Except.ok.inj (hfirst.symm.trans hfirst')
    obtain rfl := Except.ok.inj (hsecond.symm.trans hsecond')
    rw [sameAsPrevious_iff_block_eq hv hw hlater, VersionRun.ofVersion_of_ok hfirst,
      VersionRun.ofVersion_of_ok hsecond, ← Block.render_eq_iff_take_eq halike.forall₂_render limit
        showsOutputs first.1.outputs]
    simp only [VersionRun.shown, halike.outputs]

theorem sameAsPrevious_iff_take_eq_two_files :
    let snippet := Snippet.parse "q;\n// @filename: b.ts\nlet x: number = \"s\";" "a.ts"
    let v : Version := ⟨"2.0.0", ⟨"2.0.0"⟩, .bundled⟩
    let w : Version := ⟨"1.0.0", ⟨"1.0.0"⟩, .bundled⟩
    ∃ first second later, v.compile snippet = .ok first ∧ w.compile snippet = .ok second ∧
      (ofSnippet [v, w] true ⟨some 1, false⟩ snippet).entries[1]? = some later ∧
      (later.sameAsPrevious = true ↔
        (first.2.render first.1.diagnostics).take 1 =
          (second.2.render second.1.diagnostics).take 1) := by
  intro snippet v w
  have hv : (v.compile snippet).toOption.isSome = true := by decide +kernel
  have hw : (w.compile snippet).toOption.isSome = true := by decide +kernel
  have hlength : (ofSnippet [v, w] true ⟨some 1, false⟩ snippet).entries.length = 2 := by
    decide +kernel
  cases hfirst : v.compile snippet with
  | error failure =>
    rw [hfirst] at hv
    cases hv
  | ok first =>
    cases hsecond : w.compile snippet with
    | error failure =>
      rw [hsecond] at hw
      cases hw
    | ok second =>
      have hlater : (ofSnippet [v, w] true ⟨some 1, false⟩ snippet).entries[1]? = some _ :=
        List.getElem?_eq_getElem (by rw [hlength]; decide)
      have hlibrary : v.library = w.library := rfl
      exact ⟨first, second, _, rfl, rfl, hlater,
        sameAsPrevious_iff_take_eq (v := v) (w := w) (i := 0) rfl rfl hlibrary hfirst hsecond
          hlater⟩

/-- A drift beyond the limit: the oldest version counts as the same as the one before it, though the
complete lists of the two differ. -/
theorem sameAsPrevious_of_drift_beyond_limit :
    let snippet :=
      Snippet.parse "q;\n// @filename: b.ts\nlet x: number = \"s\";" "stdin.ts"
    let shown (version : Version) : Option (List String) :=
      (version.compile snippet).toOption.map fun compiled ↦
        compiled.2.render compiled.1.diagnostics
    let versions := (Registry.standard .bundled).all
    (ofSnippet versions true ⟨some 1, false⟩ snippet).entries.map ReportEntry.sameAsPrevious =
        [false, true, true] ∧
      ∃ v w, versions[1]? = some v ∧ versions[2]? = some w ∧
        (shown v).isSome = true ∧ (shown w).isSome = true ∧ shown v ≠ shown w := by
  intro snippet shown versions
  refine ⟨by decide +kernel, ⟨"2.0.0", ⟨"2.0.0"⟩, .bundled⟩, ⟨"1.0.0", ⟨"1.0.0"⟩, .bundled⟩,
    rfl, rfl, ?_⟩
  decide +kernel

end Report

end VersionSweep
