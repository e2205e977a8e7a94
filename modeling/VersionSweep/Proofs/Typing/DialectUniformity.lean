import VersionSweep.Proofs.Typing.FindingPlaces

/-!
# Checks are uniform in the dialect

A check uses its dialect in one place, to name a value that does not fit an annotation.  So checks
that differ in nothing but the dialect go through the same scopes and types, and word the same
sketches of findings.  The invariant is `Checking.Uniform`, about one state for each dialect.
-/

namespace VersionSweep

/-- Whether the text of a literal begins otherwise than the word for its type, so that the two names
for the value differ in their first characters. -/
def ExprType.Telling (source : ExprType) : Prop :=
  ∀ text, source.literal = some text →
    ∃ c rest, text.toList = c :: rest ∧ source.type.word.toList.head? ≠ some c

theorem ExprType.telling_plain (type : BasicType) : (plain type).Telling := by
  intro text htext
  cases htext

theorem ExprType.telling_literal {type : BasicType} {text : String} {c : Char} {rest : List Char}
    (htext : text.toList = c :: rest) (hword : type.word.toList.head? ≠ some c) :
    Telling ⟨type, some text⟩ := by
  intro other hother
  obtain rfl := Option.some.inj hother
  exact ⟨c, rest, htext, hword⟩

/-- The literals of a program are telling: a number begins with a digit, a string with a quote. -/
theorem Expr.telling_typing {cs : List Char} (typeOf : String → Option BasicType) :
    (e : Expr) → e.Built (Token.StandsIn cs) → (e.typing typeOf).1.Telling
  | .number text span, h => by
    obtain ⟨token, htoken, hkind, rfl, -⟩ := h
    obtain ⟨c, rest, htext, hdigit⟩ := htoken.eq_digit_cons hkind
    refine ExprType.telling_literal htext fun hword ↦ ?_
    obtain rfl : 'n' = c := Option.some.inj hword
    revert hdigit
    decide
  | .string value _, _ => by
    have htext : ("\"" ++ value ++ "\"").toList = '"' :: (value.toList ++ ['"']) := by simp
    exact ExprType.telling_literal htext (by decide)
  | .bool true _, _ =>
    ExprType.telling_literal (String.toList_ofList (l := ['t', 'r', 'u', 'e'])) (by decide)
  | .bool false _, _ =>
    ExprType.telling_literal (String.toList_ofList (l := ['f', 'a', 'l', 's', 'e'])) (by decide)
  | .name ident, _ => by
    rw [typing]
    split <;> exact ExprType.telling_plain _
  | .paren inner _, h => by
    rw [typing]
    exact telling_typing typeOf inner h.1
  | .member _ _ _, _ => ExprType.telling_plain _
  | .call _ _ _, _ => ExprType.telling_plain _

/-- A finding before a dialect words it. -/
inductive Sketch where
  | settled (finding : Finding)
  | assignment (source : ExprType) (target : BasicType) (span : Span)

namespace Sketch

def finding (dialect : Dialect) : Sketch → Finding
  | settled finding => finding
  | assignment source target span =>
    ⟨.notAssignable (source.describe dialect) target.word, span⟩

def span : Sketch → Span
  | settled finding => finding.span
  | assignment _ _ span => span

@[simp] theorem span_finding (dialect : Dialect) (sketch : Sketch) :
    (sketch.finding dialect).span = sketch.span := by
  cases sketch <;> rfl

def Telling : Sketch → Prop
  | settled _ => True
  | assignment source _ _ => source.Telling

theorem map_finding_settled (dialect : Dialect) (findings : List Finding) :
    (findings.map settled).map (finding dialect) = findings := by
  rw [List.map_map]
  exact List.map_id findings

end Sketch

namespace VarDecl

def assignmentSketches (value : Option ExprType) (decl : VarDecl) : List Sketch :=
  match decl.annotatedType, value, decl.init with
  | some target, some source, some init =>
    if source.type.assignableTo target then [] else [.assignment source target init.span]
  | _, _, _ => []

theorem assignmentFindings_eq_map (dialect : Dialect) (value : Option ExprType)
    (decl : VarDecl) :
    decl.assignmentFindings dialect value =
      (decl.assignmentSketches value).map (Sketch.finding dialect) := by
  unfold assignmentFindings assignmentSketches
  cases decl.annotatedType with
  | none => rfl
  | some target =>
    cases value with
    | none => rfl
    | some source =>
      cases decl.init with
      | none => rfl
      | some init =>
        dsimp only
        split <;> rfl

theorem telling_assignmentSketches {value : Option ExprType} {decl : VarDecl}
    (h : ∀ source ∈ value, source.Telling) :
    ∀ sketch ∈ decl.assignmentSketches value, sketch.Telling := by
  intro sketch hsketch
  unfold assignmentSketches at hsketch
  split at hsketch
  · split at hsketch
    · cases hsketch
    · obtain rfl := List.mem_singleton.1 hsketch
      exact h _ rfl
  · cases hsketch

theorem telling_valueTyping {cs : List Char} {decl : VarDecl}
    (h : decl.Built (Token.StandsIn cs)) (typeOf : String → Option BasicType) :
    ∀ source ∈ (decl.valueTyping typeOf).1, source.Telling := by
  intro source hsource
  unfold valueTyping at hsource
  split at hsource
  · cases hsource
  · rename_i init hinit
    split at hsource
    · cases hsource
    · obtain rfl := Option.some.inj hsource
      exact Expr.telling_typing typeOf init (h.init init hinit)

end VarDecl

namespace Checking

/-- The state in a dialect, given its scopes, sketches of its findings, and its types. -/
def worded (scopes : Scopes) (sketches : List (Nat × Sketch))
    (types : List ((Nat × Nat) × BasicType)) (dialect : Dialect) : Checking :=
  ⟨scopes, sketches.map fun entry ↦ (entry.1, entry.2.finding dialect), types⟩

def Uniform (state : Dialect → Checking) : Prop :=
  ∃ scopes sketches types, (∀ entry ∈ sketches, entry.2.Telling) ∧
    ∀ dialect, state dialect = worded scopes sketches types dialect

variable {units : List SourceUnit} {state : Dialect → Checking}

theorem uniform_const (state : Checking) : Uniform fun _ ↦ state := by
  refine ⟨state.scopes, state.found.map fun entry ↦ (entry.1, .settled entry.2), state.types, ?_,
    fun dialect ↦ ?_⟩
  · intro entry hentry
    obtain ⟨found, -, rfl⟩ := List.mem_map.1 hentry
    trivial
  · rw [worded, List.map_map]
    exact congrArg (Checking.mk _ · _) (List.map_id state.found).symm

theorem report_worded (scopes : Scopes) (sketches : List (Nat × Sketch))
    (types : List ((Nat × Nat) × BasicType)) (dialect : Dialect) (unit : Nat)
    (more : List Sketch) :
    (worded scopes sketches types dialect).report unit (more.map (Sketch.finding dialect)) =
      worded scopes (sketches ++ more.map fun sketch ↦ (unit, sketch)) types dialect := by
  simp [report, worded, Function.comp_def]

theorem telling_append {sketches : List (Nat × Sketch)} {more : List Sketch}
    (h : ∀ entry ∈ sketches, entry.2.Telling) (hmore : ∀ sketch ∈ more, sketch.Telling)
    (unit : Nat) :
    ∀ entry ∈ sketches ++ more.map fun sketch ↦ (unit, sketch), entry.2.Telling := by
  intro entry hentry
  rcases List.mem_append.1 hentry with hentry | hentry
  · exact h entry hentry
  · obtain ⟨sketch, hsketch, rfl⟩ := List.mem_map.1 hentry
    exact hmore sketch hsketch

theorem Uniform.checkVar (h : Uniform state) {cs : List Char} {decl : VarDecl}
    (hdecl : decl.Built (Token.StandsIn cs)) (implicitAny : Bool) (unit statement : Nat) :
    Uniform fun dialect ↦ (state dialect).checkVar dialect implicitAny unit statement decl := by
  obtain ⟨scopes, sketches, types, htelling, hstate⟩ := h
  obtain ⟨value, hvalue⟩ : ∃ value, value = decl.valueTyping (scopes.type? unit) := ⟨_, rfl⟩
  obtain ⟨more, hmore⟩ : ∃ more, more =
      (decl.headFindings implicitAny ++ value.2).map Sketch.settled ++
        decl.assignmentSketches value.1 := ⟨_, rfl⟩
  -- Only the last findings, those about the assignment, are worded by the dialect.
  refine ⟨scopes.setType unit statement decl.name.text (decl.checkedType value.1),
    sketches ++ more.map fun sketch ↦ (unit, sketch),
    types ++ [((unit, statement), decl.checkedType value.1)], ?_, fun dialect ↦ ?_⟩
  · refine telling_append htelling (fun sketch hsketch ↦ ?_) unit
    rw [hmore] at hsketch
    rcases List.mem_append.1 hsketch with hsketch | hsketch
    · obtain ⟨finding, -, rfl⟩ := List.mem_map.1 hsketch
      trivial
    · refine VarDecl.telling_assignmentSketches ?_ sketch hsketch
      exact hvalue ▸ VarDecl.telling_valueTyping hdecl _
  · have hreport := report_worded scopes sketches types dialect unit more
    rw [hmore, List.map_append, Sketch.map_finding_settled, ← VarDecl.assignmentFindings_eq_map,
      ← hmore, hvalue] at hreport
    dsimp only
    rw [hstate dialect, hvalue]
    exact congrArg (Checking.mk _ · _) (congrArg Checking.found hreport)

theorem Uniform.checkStatement (h : Uniform state) {cs : List Char}
    {numbered : Statement × Nat} (hbuilt : numbered.1.Built (Token.StandsIn cs))
    (implicitAny : Bool) (unit : Nat) :
    Uniform fun dialect ↦ checkStatement dialect implicitAny unit (state dialect) numbered := by
  obtain ⟨statement, number⟩ := numbered
  cases statement with
  | var decl => exact h.checkVar hbuilt implicitAny unit number
  | importNames decl => exact h
  | expr value span =>
    obtain ⟨scopes, sketches, types, htelling, hstate⟩ := h
    obtain ⟨findings, hfindings⟩ : ∃ findings,
        findings = (value.typing (scopes.type? unit)).2 := ⟨_, rfl⟩
    refine ⟨scopes, sketches ++ (findings.map Sketch.settled).map fun sketch ↦ (unit, sketch),
      types, telling_append htelling (fun sketch hsketch ↦ ?_) unit, fun dialect ↦ ?_⟩
    · obtain ⟨finding, -, rfl⟩ := List.mem_map.1 hsketch
      trivial
    · have hreport := report_worded scopes sketches types dialect unit
        (findings.map Sketch.settled)
      rw [Sketch.map_finding_settled, hfindings] at hreport
      dsimp only
      rw [hstate dialect, hfindings]
      exact hreport

theorem Uniform.foldl {α : Type} {items : List α} {step : Dialect → Checking → α → Checking}
    (h : Uniform state)
    (hstep : ∀ item ∈ items, ∀ state, Uniform state →
      Uniform fun dialect ↦ step dialect (state dialect) item) :
    Uniform fun dialect ↦ items.foldl (step dialect) (state dialect) := by
  induction items generalizing state with
  | nil => exact h
  | cons item rest ih =>
    obtain ⟨hitem, hrest⟩ := List.forall_mem_cons.1 hstep
    exact ih (hitem state h) hrest

theorem Uniform.checkUnits (h : Uniform state) (hunits : ∀ unit ∈ units, unit.file.Sound)
    (implicitAny : Bool) :
    Uniform fun dialect ↦ (state dialect).checkUnits dialect implicitAny units := by
  refine h.foldl fun ⟨unit, index⟩ hmem state hstate ↦ ?_
  dsimp only
  split
  · exact hstate
  · have hunit := List.mem_of_getElem? (List.mem_zipIdx_iff_getElem?.1 hmem)
    refine hstate.foldl fun numbered hnumbered state hstate ↦ ?_
    exact hstate.checkStatement (SourceUnit.built_of_mem_numbered (hunits unit hunit) hnumbered)
      implicitAny index

end Checking

namespace Sketch

def sort (sketches : List Sketch) : List Sketch :=
  sketches.mergeSort fun a b ↦ a.span.start ≤ b.span.start

theorem map_finding_sort (dialect : Dialect) (sketches : List Sketch) :
    (sort sketches).map (finding dialect) = Finding.sort (sketches.map (finding dialect)) :=
  List.map_mergeSort fun _ _ _ _ ↦ by simp

def owned (index : Nat) (sketches : List (Nat × Sketch)) : List Sketch :=
  sketches.filterMap fun entry ↦ if entry.1 = index then some entry.2 else none

theorem mem_of_mem_owned {index : Nat} {sketches : List (Nat × Sketch)} {sketch : Sketch}
    (h : sketch ∈ owned index sketches) : (index, sketch) ∈ sketches := by
  obtain ⟨⟨owner, found⟩, hentry, hsome⟩ := List.mem_filterMap.1 h
  dsimp only at hsome
  split at hsome
  · rename_i howner
    obtain rfl := Option.some.inj hsome
    exact howner ▸ hentry
  · cases hsome

/-- The sketches of the units by place, the library excepted, each with the name of its file. -/
def reports (units : List SourceUnit) (sketches : List (Nat × Sketch)) : List (Sketch × String) :=
  units.zipIdx.flatMap fun numbered ↦
    if numbered.1.isLibrary then []
    else (sort (owned numbered.2 sketches)).map fun sketch ↦ (sketch, numbered.1.file.name)

theorem telling_of_mem_reports {units : List SourceUnit} {sketches : List (Nat × Sketch)}
    (h : ∀ entry ∈ sketches, entry.2.Telling) :
    ∀ report ∈ reports units sketches, report.1.Telling := by
  intro report hreport
  obtain ⟨numbered, -, hreport⟩ := List.mem_flatMap.1 hreport
  split at hreport
  · cases hreport
  · obtain ⟨sketch, hsketch, rfl⟩ := List.mem_map.1 hreport
    rw [sort, List.mem_mergeSort] at hsketch
    exact h _ (mem_of_mem_owned hsketch)

def diagnostic (dialect : Dialect) (report : Sketch × String) : Diagnostic :=
  (report.1.finding dialect).toDiagnostic report.2

end Sketch

namespace Checking

variable {units : List SourceUnit} {state : Dialect → Checking}

theorem diagnostics_worded (units : List SourceUnit) (scopes : Scopes)
    (sketches : List (Nat × Sketch)) (types : List ((Nat × Nat) × BasicType))
    (dialect : Dialect) :
    (worded scopes sketches types dialect).diagnostics units =
      (Sketch.reports units sketches).map (Sketch.diagnostic dialect) := by
  have howned (index : Nat) :
      ((worded scopes sketches types dialect).found.filterMap fun entry ↦
        if entry.1 = index then some entry.2 else none) =
        (Sketch.owned index sketches).map (Sketch.finding dialect) := by
    rw [worded, Sketch.owned, List.filterMap_map, List.map_filterMap]
    refine congrArg (List.filterMap · sketches) (funext fun entry ↦ ?_)
    dsimp only [Function.comp_apply]
    split <;> rfl
  rw [Sketch.reports, List.map_flatMap]
  refine congrArg (List.flatMap · _) (funext fun numbered ↦ ?_)
  obtain ⟨unit, index⟩ := numbered
  dsimp only
  split
  · rfl
  · rw [howned, ← Sketch.map_finding_sort, List.map_map, List.map_map]
    rfl

/-- What checks of the same units in all dialects come to: the same types, and diagnostics that are
worded from the same sketches. -/
theorem exists_reports_check (hunits : ∀ unit ∈ units, unit.file.Sound) (settings : Assignment) :
    ∃ (reports : List (Sketch × String)) (types : List ((Nat × Nat) × BasicType)),
      (∀ report ∈ reports, report.1.Telling) ∧
      ∀ dialect, check units settings dialect =
        ⟨reports.map (Sketch.diagnostic dialect), types⟩ := by
  obtain ⟨redeclared, hredeclared⟩ : ∃ redeclared : Checking, ∀ dialect,
      check units settings dialect =
        ⟨(redeclared.checkUnits dialect (reportsImplicitAny settings) units).diagnostics units,
          (redeclared.checkUnits dialect (reportsImplicitAny settings) units).types⟩ :=
    ⟨_, fun _ ↦ rfl⟩
  have huniform := (uniform_const redeclared).checkUnits hunits (reportsImplicitAny settings)
  obtain ⟨scopes, sketches, types, htelling, hstate⟩ := huniform
  refine ⟨Sketch.reports units sketches, types, Sketch.telling_of_mem_reports htelling,
    fun dialect ↦ ?_⟩
  rw [hredeclared, ← diagnostics_worded units scopes sketches types dialect, ← hstate dialect]
  exact congrArg (Checked.mk _) (congrArg Checking.types (hstate dialect))

end Checking

end VersionSweep
