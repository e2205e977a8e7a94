import VersionSweep.Proofs.Output.SharedPaths
import VersionSweep.Proofs.Project.ParsedUnits
import VersionSweep.Proofs.Typing.CheckRun

/-!
# Declarations of a file by itself

Where a program is asked for declarations that stand by themselves and has nothing to report about a
module, the declarations of the module follow from its text alone.  A reported variable is just one
whose type a check would have to look up outside the declaration.
-/

namespace VersionSweep

/-- A literal, however many parentheses stand around it, has its type by itself. -/
theorem Expr.typing_of_isLiteral (typeOf typeOf' : String → Option BasicType) :
    (e : Expr) → e.isLiteral = true → e.typing typeOf = e.typing typeOf'
  | .number _ _, _ => rfl
  | .string _ _, _ => rfl
  | .bool _ _, _ => rfl
  | .paren inner _, h => by
    rw [typing, typing]
    exact typing_of_isLiteral typeOf typeOf' inner h
  | .name _, h => by cases h
  | .member _ _ _, h => by cases h
  | .call _ _ _, h => by cases h

/-- An exported variable about whose type nothing is to be reported has it by itself. -/
theorem VarDecl.checkedType_of_not_needsAnnotation {decl : VarDecl}
    (h : Program.needsAnnotation decl = false) (hexported : decl.exported = true)
    (typeOf typeOf' : String → Option BasicType) :
    decl.checkedType (decl.valueTyping typeOf).1 =
      decl.checkedType (decl.valueTyping typeOf').1 := by
  cases hwritten : decl.annotation with
  | some annotation => simp [checkedType, annotatedType, hwritten]
  | none =>
    cases hinit : decl.init with
    | none => simp [valueTyping, hinit]
    | some init =>
      by_cases hambient : decl.ambient = true
      · simp [valueTyping, hinit, hambient]
      · have hliteral : init.isLiteral = true := by
          simpa [Program.needsAnnotation, hexported, hambient, hwritten, hinit] using h
        simp only [valueTyping, hinit, if_neg hambient]
        rw [init.typing_of_isLiteral typeOf typeOf' hliteral]

theorem Layout.declarations_eq (layout : Layout) (file : SourceFile)
    (typeOf : ℕ → Option BasicType) : layout.declarations file typeOf =
      layout.close ((file.statements.zipIdx.flatMap fun entry ↦
          declarationLines file.isModule (typeOf entry.2) entry.1) ++
        if file.isModule && !file.statements.any exportsVariable then [emptyExportLine] else []) :=
  rfl

/-- What is declared of a module hangs on its statements, the line break, and the types of its
exported variables without an annotation. -/
theorem Layout.declarations_congr {layout layout' : Layout} {file file' : SourceFile}
    {typeOf typeOf' : ℕ → Option BasicType} (hnewLine : layout.newLine = layout'.newLine)
    (hstatements : file.statements = file'.statements) (hmodule : file.isModule = true)
    (htypes : ∀ number decl, file.statements[number]? = some (.var decl) → decl.exported = true →
      typeOf number = typeOf' number) :
    layout.declarations file typeOf = layout'.declarations file' typeOf' := by
  have hmodule' : file'.isModule = true := by
    rw [← hmodule, SourceFile.isModule, SourceFile.isModule, hstatements]
  have hlines (statement : Statement) (number : ℕ)
      (h : file.statements[number]? = some statement) :
      declarationLines true (typeOf number) statement =
        declarationLines true (typeOf' number) statement := by
    cases statement with
    | importNames decl => rfl
    | expr value span => rfl
    | var decl =>
      by_cases hexported : decl.exported = true
      · rw [htypes number decl h hexported]
      · simp [declarationLines, hexported]
  have hall : (file.statements.zipIdx.flatMap fun entry ↦
      declarationLines true (typeOf entry.2) entry.1) =
      file.statements.zipIdx.flatMap fun entry ↦
        declarationLines true (typeOf' entry.2) entry.1 := by
    apply List.flatMap_congr
    rintro ⟨statement, number⟩ hmem
    exact hlines statement number (List.mem_zipIdx_iff_getElem?.1 hmem)
  rw [declarations_eq, declarations_eq, hmodule, hmodule', hall, hstatements]
  simp only [close, hnewLine]

namespace Program

/-- A module of a program that is asked for declarations that stand by themselves: neither the
library nor a declaration file, so that declarations are made from it. -/
structure DeclaresModule (program : Program) (unit : SourceUnit) : Prop where
  declares : program.settings.flag "declaration" = true
  isolates : program.settings.flag "isolatedDeclarations" = true
  source : unit.isLibrary = false
  script : unit.file.isDeclarationFile = false
  isModule : unit.isModule = true

variable {program : Program} {index : ℕ} {unit : SourceUnit}

instance : Decidable (program.DeclaresModule unit) :=
  decidable_of_iff
    (program.settings.flag "declaration" = true ∧
      program.settings.flag "isolatedDeclarations" = true ∧ unit.isLibrary = false ∧
      unit.file.isDeclarationFile = false ∧ unit.isModule = true)
    ⟨fun ⟨h₁, h₂, h₃, h₄, h₅⟩ ↦ ⟨h₁, h₂, h₃, h₄, h₅⟩,
      fun ⟨h₁, h₂, h₃, h₄, h₅⟩ ↦ ⟨h₁, h₂, h₃, h₄, h₅⟩⟩

def declarationText (program : Program) (index : ℕ) (unit : SourceUnit) : String :=
  (Layout.ofSettings program.settings Store.newLine).declarations unit.file fun statement ↦
    program.checked.types.lookup (index, statement)

/-- A script and a declaration file are made from a source, if a program is asked for both. -/
theorem exists_artifactsOf_eq (hdeclares : program.settings.flag "declaration" = true)
    (hsource : unit.isLibrary = false) (hscript : unit.file.isDeclarationFile = false)
    (index : ℕ) : ∃ script, program.artifactsOf index unit =
      [script, ⟨Emit.outputPath unit.file.name ".d.ts" (program.settings.string? "outDir"),
        program.declarationText index unit⟩] := by
  refine ⟨⟨Emit.outputPath unit.file.name ".js" (program.settings.string? "outDir"),
    (Layout.ofSettings program.settings Store.newLine).script unit.file⟩, ?_⟩
  simp [artifactsOf, Emit.unitArtifacts, hsource, hscript, hdeclares, declarationText]

theorem DeclaresModule.artifactsOf_eq (h : program.DeclaresModule unit) (index : ℕ) :
    ∃ script, program.artifactsOf index unit =
      [script, ⟨Emit.outputPath unit.file.name ".d.ts" (program.settings.string? "outDir"),
        program.declarationText index unit⟩] :=
  exists_artifactsOf_eq h.declares h.source h.script index

/-- What is to be reported about a unit is reported under the name of its file. -/
theorem DeclaresModule.needsAnnotation_eq_false (h : program.DeclaresModule unit)
    (hunit : unit ∈ program.units)
    (hnone : ∀ diagnostic ∈ program.declaration, ∀ location,
      diagnostic.location = some location → location.file ≠ unit.file.name)
    {decl : VarDecl} (hdecl : .var decl ∈ unit.file.statements) : needsAnnotation decl = false := by
  by_contra hneeds
  have hneeds : needsAnnotation decl = true := by simpa using hneeds
  let finding : Finding := ⟨.annotationRequired, decl.name.span⟩
  have hreported : finding.toDiagnostic unit.file.name ∈ unannotated unit := by
    refine List.mem_filterMap.2 ⟨.var decl, hdecl, ?_⟩
    dsimp only
    rw [if_pos hneeds]
  have hsource : unit ∈ program.sources :=
    mem_sources.2 ⟨hunit, h.source⟩
  have hmem : finding.toDiagnostic unit.file.name ∈ program.declaration := by
    rw [declaration, h.declares, h.isolates]
    refine List.mem_flatMap.2 ⟨unit, List.mem_filter.2 ⟨hsource, ?_⟩, hreported⟩
    simp [h.script]
  exact hnone _ hmem _ rfl rfl

/-- In two programs, whatever else they are made of, the same declarations are made from modules of
the same text, if there is nothing to report about the module in one of them. -/
theorem exists_declarations_of_isolated {dialect dialect' : Dialect} {roots roots' : List String}
    {settings settings' : Assignment} {services services' : Services} {library library' : Library}
    {history history' : List Store.Operation} {program program' : Program} {after after' : Store}
    (hbuild : build dialect roots settings (Store.ofHistory services library history) =
      .ok (program, after))
    (hbuild' : build dialect' roots' settings' (Store.ofHistory services' library' history') =
      .ok (program', after'))
    (hnewLine : (Layout.ofSettings settings Store.newLine).newLine =
      (Layout.ofSettings settings' Store.newLine).newLine)
    {index index' : ℕ} {unit unit' : SourceUnit} (hunit : program.units[index]? = some unit)
    (hunit' : program'.units[index']? = some unit') (hmodule : program.DeclaresModule unit)
    (hmodule' : program'.DeclaresModule unit') (htext : unit.file.text = unit'.file.text)
    (hnone : ∀ diagnostic ∈ program.declaration, ∀ location,
      diagnostic.location = some location → location.file ≠ unit.file.name) :
    ∃ script script' text,
      program.artifactsOf index unit = [script,
        ⟨Emit.outputPath unit.file.name ".d.ts" (settings.string? "outDir"), text⟩] ∧
      program'.artifactsOf index' unit' = [script',
        ⟨Emit.outputPath unit'.file.name ".d.ts" (settings'.string? "outDir"), text⟩] := by
  have hbuilt := built_of_build (Store.keepsParsed_ofHistory services library history) hbuild
  have hbuilt' := built_of_build (Store.keepsParsed_ofHistory services' library' history') hbuild'
  have hparsed := hbuilt.parsed unit (List.mem_of_getElem? hunit)
  have hparsed' := hbuilt'.parsed unit' (List.mem_of_getElem? hunit')
  have hstatements : unit.file.statements = unit'.file.statements :=
    hparsed.statements_eq hparsed' htext
  have hsame : program.declarationText index unit = program'.declarationText index' unit' := by
    apply Layout.declarations_congr
    · rw [hbuilt.settings_eq, hbuilt'.settings_eq, hnewLine]
    · exact hstatements
    · exact hmodule.isModule
    · intro number decl hdecl hexported
      have hneeds := hmodule.needsAnnotation_eq_false (List.mem_of_getElem? hunit) hnone
        (List.mem_of_getElem? hdecl)
      obtain ⟨before, -, -, htype⟩ := Checking.exists_lookup_types_check settings dialect
        hunit hmodule.source hdecl
      obtain ⟨before', -, -, htype'⟩ := Checking.exists_lookup_types_check settings' dialect'
        hunit' hmodule'.source (hstatements ▸ hdecl)
      rw [hbuilt.checked, hbuilt'.checked, htype, htype']
      exact congrArg some (decl.checkedType_of_not_needsAnnotation hneeds hexported _ _)
  obtain ⟨script, hartifacts⟩ := hmodule.artifactsOf_eq index
  obtain ⟨script', hartifacts'⟩ := hmodule'.artifactsOf_eq index'
  refine ⟨script, script', program.declarationText index unit, ?_, ?_⟩
  · rw [hartifacts, hbuilt.settings_eq]
  · rw [hartifacts', hbuilt'.settings_eq, hsame]

theorem exists_declarations_of_isolated_other_world :
    let text :=
      "import \x7b n \x7d from \"./n\";\nexport const m = ((1));\nexport let s: string = n;"
    let isolated := (Assignment.empty.set "declaration" (.bool true)).set "isolatedDeclarations"
      (.bool true)
    let store := Store.ofHistory .language .bundled
      [.add "a.ts" text, .add "n.ts" "export const n = \"x\";"]
    let store' := Store.ofHistory .plainText .bundled [.add "/far/b.ts" text]
    ∃ program program' after after' unit unit' script script' declared,
      build ⟨3⟩ ["a.ts"] isolated store = .ok (program, after) ∧
      build ⟨1⟩ ["\\far\\b.ts"] (isolated.set "noLib" (.bool true)) store' =
        .ok (program', after') ∧
      program.units[1]? = some unit ∧ program'.units[0]? = some unit' ∧
      program.artifactsOf 1 unit = [script, ⟨"a.d.ts", declared⟩] ∧
      program'.artifactsOf 0 unit' = [script', ⟨"\\far\\b.d.ts", declared⟩] := by
  intro text isolated store store'
  have hfirst : ((build ⟨3⟩ ["a.ts"] isolated store).toOption.any fun (program, _) ↦
      program.units[1]?.any fun unit ↦
        decide (program.DeclaresModule unit ∧ unit.file.text = text ∧ unit.file.name = "a.ts") &&
          program.declaration.isEmpty) = true := by
    decide +kernel
  have hsecond : ((build ⟨1⟩ ["\\far\\b.ts"] (isolated.set "noLib" (.bool true))
      store').toOption.any fun (program, _) ↦ program.units[0]?.any fun unit ↦
        decide (program.DeclaresModule unit ∧ unit.file.text = text ∧
          unit.file.name = "\\far\\b.ts")) = true := by
    decide +kernel
  obtain ⟨⟨program, after⟩, hbuild, hany⟩ := exists_ok_of_any hfirst
  obtain ⟨unit, hunit, hfacts⟩ := (Option.any_eq_true _ _).1 hany
  rw [Bool.and_eq_true, decide_eq_true_eq, List.isEmpty_iff] at hfacts
  obtain ⟨⟨hmodule, htext, hname⟩, hnone⟩ := hfacts
  obtain ⟨⟨program', after'⟩, hbuild', hany'⟩ := exists_ok_of_any hsecond
  obtain ⟨unit', hunit', hfacts'⟩ := (Option.any_eq_true _ _).1 hany'
  obtain ⟨hmodule', htext', hname'⟩ := of_decide_eq_true hfacts'
  have hsilent : ∀ diagnostic ∈ program.declaration, ∀ location,
      diagnostic.location = some location → location.file ≠ unit.file.name := by
    simp [hnone]
  obtain ⟨script, script', declared, hartifacts, hartifacts'⟩ :=
    exists_declarations_of_isolated hbuild hbuild' (by decide) hunit hunit' hmodule hmodule'
      (htext.trans htext'.symm) hsilent
  have hpath : Emit.outputPath "a.ts" ".d.ts" (isolated.string? "outDir") = "a.d.ts" := by
    decide +kernel
  have hpath' : Emit.outputPath "\\far\\b.ts" ".d.ts"
      ((isolated.set "noLib" (.bool true)).string? "outDir") = "\\far\\b.d.ts" := by
    decide +kernel
  rw [hname, hpath] at hartifacts
  rw [hname', hpath'] at hartifacts'
  exact ⟨program, program', after, after', unit, unit', script, script', declared, hbuild, hbuild',
    hunit, hunit', hartifacts, hartifacts'⟩

end Program

end VersionSweep
