import VersionSweep.Proofs.Output.WrittenPaths
import VersionSweep.Proofs.Report.VersionAgreement

/-!
# How blocks begin

A block of one line begins with the wording of a failure or of a problem, with the count of what is
not shown, or with the header of an output.  None of these begins with a parenthesis, so no block is
the note that stands for a block that is the same as the one before it.
-/

namespace VersionSweep

namespace Text

def OpensUnbracketed (text : String) : Prop :=
  text.toList.head?.any (· ≠ '(') = true

instance (text : String) : Decidable (OpensUnbracketed text) :=
  inferInstanceAs (Decidable (_ = true))

theorem OpensUnbracketed.append {first : String} (h : OpensUnbracketed first) (rest : String) :
    OpensUnbracketed (first ++ rest) := by
  obtain ⟨c, hc, hopens⟩ := (Option.any_eq_true _ _).1 h
  refine (Option.any_eq_true _ _).2 ⟨c, ?_, hopens⟩
  rw [String.toList_append, List.head?_append, hc, Option.some_or]

/-- Whether a text is no single line that begins with a parenthesis. -/
def Unbracketed (text : String) : Prop :=
  text = "" ∨ '\n' ∈ text.toList ∨ OpensUnbracketed text

theorem OpensUnbracketed.unbracketed {text : String} (h : OpensUnbracketed text) :
    Unbracketed text :=
  .inr (.inr h)

theorem Unbracketed.ne_sameNote {text : String} (h : Unbracketed text) :
    text ≠ Report.sameNote := by
  rintro rfl
  revert h
  unfold Unbracketed
  decide

/-- Only a single row can make a stack of rows begin with a parenthesis. -/
theorem unbracketed_stack {rows : List String} (h : ∀ row, rows = [row] → Unbracketed row) :
    Unbracketed (stack rows) := by
  cases rows with
  | nil => exact .inl rfl
  | cons first rest =>
    cases rest with
    | nil =>
      rw [stack, String.intercalate_singleton]
      exact h first rfl
    | cons second rest =>
      refine .inr (.inl ?_)
      rw [stack, String.intercalate_cons_cons]
      simp

end Text

open Text

theorem Problem.opensUnbracketed_headline (problem : Problem) :
    OpensUnbracketed problem.headline := by
  -- A wording is one text, or texts of its own around one name or around two.
  cases problem with
  | expected name | moduleNotFound name | notAModule name | importConflict name
  | duplicateImport name | redeclaration name | unknownName name | implicitAny name
  | missingGlobalType name | wouldOverwriteInput name => exact .append (.append (by decide) _) _
  | noSuchExport first second | notAssignable first second =>
    exact .append (.append (.append (.append (by decide) _) _) _) _
  | notCallable type =>
    change OpensUnbracketed "This expression is not callable."
    decide
  | _ => decide +kernel

theorem Failure.opensUnbracketed_message (failure : Failure) :
    OpensUnbracketed failure.message := by
  cases failure with
  | unsupportedVersion requested known => exact .append (.append (.append (by decide) _) _) _
  | duplicateVersion name | input name => exact .append (by decide) _
  | unknownOption name | missingVirtualFile name => exact .append (.append (by decide) _) _
  | libraryRead path reason => exact .append (.append (.append (by decide) _) _) _
  | invalidOptionValue name value expected =>
    exact .append (.append (.append (.append (.append (by decide) _) _) _) _) _
  | sessionConsumed => decide

def Diagnostic.Worded (diagnostic : Diagnostic) : Prop :=
  ∃ problem : Problem, diagnostic.message = problem.message

namespace Program

variable {program : Program} {diagnostic : Diagnostic}

theorem worded_of_mem_declaration (h : diagnostic ∈ program.declaration) : diagnostic.Worded := by
  unfold declaration at h
  split at h
  · obtain ⟨unit, -, hdiagnostic⟩ := List.mem_flatMap.1 h
    obtain ⟨statement, -, hreported⟩ := List.mem_filterMap.1 hdiagnostic
    cases statement with
    | expr value span => cases hreported
    | importNames decl => cases hreported
    | var decl =>
      dsimp only at hreported
      split at hreported
      · obtain rfl := Option.some.inj hreported
        exact ⟨_, rfl⟩
      · cases hreported
  · cases h

theorem worded_of_mem_global (h : diagnostic ∈ program.global) : diagnostic.Worded := by
  unfold global at h
  split at h
  · obtain ⟨name, -, rfl⟩ := List.mem_map.1 h
    exact ⟨_, rfl⟩
  · cases h

theorem worded_of_mem_options (h : diagnostic ∈ program.options) : diagnostic.Worded := by
  rcases List.mem_append.1 h with h | h
  all_goals
    split at h
    · obtain rfl := List.mem_singleton.1 h
      exact ⟨_, rfl⟩
    · cases h

theorem worded_of_mem_check {units : List SourceUnit} {settings : Assignment} {dialect : Dialect}
    (h : diagnostic ∈ (Checking.check units settings dialect).diagnostics) : diagnostic.Worded := by
  obtain ⟨⟨unit, index⟩, -, h⟩ := List.mem_flatMap.1 h
  dsimp only at h
  split at h
  · cases h
  · obtain ⟨finding, -, rfl⟩ := List.mem_map.1 h
    exact ⟨_, rfl⟩

/-- What a program that was built reports has the wording of a problem. -/
theorem worded_of_mem_diagnose {dialect : Dialect} {roots : List String} {settings : Assignment}
    {store made : Store} (hmake : make dialect roots settings store = .ok (program, made))
    {target : Store} (h : diagnostic ∈ (program.diagnose target).2) :
    diagnostic.Worded := by
  simp only [diagnose, List.mem_append] at h
  obtain ((((h | h) | h) | h) | h) | h := h
  · obtain ⟨unit, -, hdiagnostic⟩ := List.mem_flatMap.1 h
    obtain ⟨finding, -, rfl⟩ := List.mem_map.1 hdiagnostic
    exact ⟨_, rfl⟩
  · unfold make at hmake
    split at hmake
    · cases hmake
    dsimp only at hmake
    split at hmake
    · cases hmake
    obtain ⟨rfl, -⟩ := Prod.mk.inj (Except.ok.inj hmake)
    exact worded_of_mem_check h
  · exact worded_of_mem_global h
  · exact worded_of_mem_declaration h
  · exact worded_of_mem_options h
  · rw [emit, Emit.writeAll_eq] at h
    obtain ⟨artifact, -, rfl⟩ := List.mem_map.1 h
    exact ⟨_, rfl⟩

end Program

theorem Version.worded_of_compile {version : Version} {snippet : Snippet}
    {compiled : Compilation × Session} (h : version.compile snippet = .ok compiled) :
    ∀ diagnostic ∈ compiled.1.diagnostics, diagnostic.Worded := by
  have hpristine : (version.session.load snippet).state.Pristine :=
    Session.pristine_load
      (Session.pristine_start version.label version.compiler version.library) snippet
  have hloaded := load_failure_of_compile h
  have hcompile := Session.compile_of_pristine hpristine
  split at hcompile
  · rw [compile_of_error hloaded hcompile] at h
    cases h
  · rename_i program store hmake
    rw [compile_of_ok hloaded hcompile] at h
    obtain rfl := Except.ok.inj h
    exact fun diagnostic hdiagnostic ↦ Program.worded_of_mem_diagnose hmake hdiagnostic

theorem Diagnostic.Worded.unbracketed_render {diagnostic : Diagnostic} (h : diagnostic.Worded)
    (source : Option String) : Unbracketed (diagnostic.render source) := by
  obtain ⟨problem, hproblem⟩ := h
  have hmessage : Unbracketed diagnostic.message.flatten := by
    rw [hproblem]
    refine unbracketed_stack fun row hrow ↦ ?_
    obtain rfl : "" ++ problem.headline = row := (List.cons.inj hrow).1
    rw [String.empty_append]
    exact problem.opensUnbracketed_headline.unbracketed
  have hrender := render?_eq_some diagnostic source
  unfold render? at hrender
  split at hrender
  · obtain ⟨rows, -, hrows⟩ := Option.bind_eq_some_iff.1 hrender
    rw [← Option.some.inj hrows]
    -- Without an excerpt there is the line that begins with the severity.
    refine unbracketed_stack fun row hrow ↦ ?_
    obtain rfl := List.mem_singleton.1 (hrow ▸ List.mem_append_right _ (List.mem_singleton_self _))
    refine OpensUnbracketed.unbracketed (.append (.append (.append (.append ?_ _) _) _) _)
    cases diagnostic.severity <;> decide
  · rw [← Option.some.inj hrender]
    exact hmessage

namespace Block

theorem unbracketed_renderOutputs (outputs : OrderedMap String) :
    Unbracketed (renderOutputs outputs) := by
  refine unbracketed_stack fun row hrow ↦ ?_
  obtain ⟨output, -, rfl⟩ := List.mem_map.1 (hrow ▸ List.mem_singleton_self row)
  exact (OpensUnbracketed.append (.append (.append (.append (by decide) _) _) _) _).unbracketed

theorem unbracketed_of_mem_shownDiagnostics {limit : Option Nat} {rows : List String}
    (h : ∀ row ∈ rows, Unbracketed row) {row : String} (hrow : row ∈ shownDiagnostics limit rows) :
    Unbracketed row := by
  unfold shownDiagnostics at hrow
  split at hrow
  · exact h row hrow
  split at hrow
  · rcases List.mem_append.1 hrow with hrow | hrow
    · exact h row (List.mem_of_mem_take hrow)
    · obtain rfl := List.mem_singleton.1 hrow
      exact (OpensUnbracketed.append (.append (by decide) _) _).unbracketed
  · exact h row hrow

theorem unbracketed_render {rows : List String} (h : ∀ row ∈ rows, Unbracketed row)
    (options : BlockOptions) (outputs : OrderedMap String) :
    Unbracketed (render options rows outputs) := by
  refine unbracketed_stack fun row hrow ↦ ?_
  rcases List.mem_append.1 (hrow ▸ List.mem_singleton_self row) with hmem | hmem
  · exact unbracketed_of_mem_shownDiagnostics h hmem
  · split at hmem
    · obtain rfl := List.mem_singleton.1 hmem
      exact unbracketed_renderOutputs outputs
    · cases hmem

end Block

/-- No version makes a block of a snippet that is the note about a block like the one before. -/
theorem VersionRun.block_ofVersion_ne_sameNote (options : BlockOptions) (snippet : Snippet)
    (version : Version) : (ofVersion options snippet version).block ≠ Report.sameNote := by
  refine Unbracketed.ne_sameNote ?_
  cases hcompiled : version.compile snippet with
  | error failure =>
    rw [ofVersion_of_error hcompiled]
    exact failure.opensUnbracketed_message.unbracketed
  | ok compiled =>
    rw [ofVersion_of_ok hcompiled]
    refine Block.unbracketed_render (fun row hrow ↦ ?_) options _
    obtain ⟨diagnostic, hdiagnostic, rfl⟩ := List.mem_map.1 hrow
    exact (Version.worded_of_compile hcompiled diagnostic hdiagnostic).unbracketed_render _

end VersionSweep
