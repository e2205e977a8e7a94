import Mathlib.Data.List.Flatten
import VersionSweep.Proofs.Language.NameOrder
import VersionSweep.Proofs.Typing.KnownNames

/-!
# Resolution of names

A check reports a name that is looked up just if it is known nowhere that the unit looks, and the
word of an annotation just if it is no type.  It does so statement by statement, and within a
statement in the order of the text, so that the reports come in the order of their places.
-/

namespace VersionSweep

def Ident.unknown (name : Ident) : Finding :=
  ⟨.unknownName name.text, name.span⟩

def Ident.isNoType (name : Ident) : Bool :=
  (BasicType.ofWord? name.text).isNone

theorem Ident.isNoType_iff {name : Ident} :
    name.isNoType = true ↔ name.text ∉ ["any", "number", "string", "boolean"] := by
  unfold isNoType BasicType.ofWord?
  split_ifs <;> simp_all

def Finding.isUnknownName (finding : Finding) : Bool :=
  finding.problem.code = 2304

theorem Finding.isUnknownName_eq_false {finding : Finding} {pass : CheckPass}
    (h : finding.problem.pass? = some pass) (hpass : pass ≠ .statements) :
    finding.isUnknownName = false := by
  obtain ⟨problem, span⟩ := finding
  cases problem <;> simp_all [isUnknownName, Problem.code, Problem.pass?]

/-! ## Expressions -/

namespace Expr

theorem filter_callFindings (callee : Expr) (type : BasicType) :
    (callFindings callee type).filter Finding.isUnknownName = [] := by
  unfold callFindings
  split <;> rfl

mutual

/-- Of what is reported about an expression, the part about unknown names: those in it, at any
depth, that have no type. -/
theorem filter_typing (typeOf : String → Option BasicType) : (e : Expr) →
    (e.typing typeOf).2.filter Finding.isUnknownName =
      (e.names.filter fun name ↦ (typeOf name.text).isNone).map Ident.unknown
  | .number _ _ => by simp [typing]
  | .string _ _ => by simp [typing]
  | .bool _ _ => by simp [typing]
  | .name ident => by
    rw [typing, names_name]
    cases htype : typeOf ident.text with
    | none =>
      simp [htype]
      rfl
    | some type => simp [htype]
  | .paren inner span => by
    rw [typing, names_paren]
    exact filter_typing typeOf inner
  | .member object property span => by
    rw [typing, names_member]
    exact filter_typing typeOf object
  | .call callee arguments span => by
    rw [typing, names_call, List.flatMap_cons, List.filter_append, List.filter_append,
      filter_callFindings, List.append_nil, filter_typing typeOf callee,
      filter_typings typeOf arguments, List.filter_append, List.map_append]

theorem filter_typings (typeOf : String → Option BasicType) : (arguments : List Expr) →
    (typings typeOf arguments).filter Finding.isUnknownName =
      ((arguments.flatMap names).filter fun name ↦ (typeOf name.text).isNone).map Ident.unknown
  | [] => rfl
  | argument :: rest => by
    rw [typings, List.flatMap_cons, List.filter_append, filter_typing typeOf argument,
      filter_typings typeOf rest, List.filter_append, List.map_append]

end

end Expr

/-! ## Statements -/

def Statement.unresolved (knows : String → Bool) (statement : Statement) : List Ident :=
  statement.annotation?.toList.filter Ident.isNoType ++
    statement.used.filter fun name ↦ !knows name.text

theorem Statement.unresolved_sublist (knows : String → Bool) (statement : Statement) :
    (statement.unresolved knows).Sublist statement.lookedUp :=
  List.filter_sublist.append List.filter_sublist

namespace VarDecl

theorem filter_headFindings (implicitAny : Bool) (decl : VarDecl) :
    (decl.headFindings implicitAny).filter Finding.isUnknownName =
      ((Statement.var decl).annotation?.toList.filter Ident.isNoType).map Ident.unknown := by
  have hconstant : (if decl.keyword = .const ∧ decl.init.isNone ∧ ¬ decl.ambient then
      [(⟨.constantWithoutValue, decl.name.span⟩ : Finding)] else []).filter
        Finding.isUnknownName = [] := by
    split <;> rfl
  have huntyped : (if decl.ambient ∧ decl.annotation.isNone ∧ implicitAny then
      [(⟨.implicitAny decl.name.text, decl.name.span⟩ : Finding)] else []).filter
        Finding.isUnknownName = [] := by
    split <;> rfl
  unfold headFindings
  dsimp only
  rw [List.filter_append, List.filter_append, hconstant, huntyped, List.append_nil,
    List.append_nil, Statement.annotation?]
  cases decl.annotation with
  | none => rfl
  | some name =>
    cases htype : BasicType.ofWord? name.text <;>
      simp [htype, Ident.isNoType, Ident.unknown, Finding.isUnknownName, Problem.code]

theorem filter_valueTyping (typeOf : String → Option BasicType) (decl : VarDecl) :
    (decl.valueTyping typeOf).2.filter Finding.isUnknownName =
      ((Statement.var decl).used.filter fun name ↦ (typeOf name.text).isNone).map
        Ident.unknown := by
  cases hinit : decl.init with
  | none => simp [valueTyping, Statement.used, Statement.value?, hinit]
  | some init =>
    by_cases hambient : decl.ambient = true
    · simp [valueTyping, Statement.used, Statement.value?, hinit, hambient,
        Finding.isUnknownName, Problem.code]
    · simpa [valueTyping, Statement.used, Statement.value?, hinit, hambient] using
        init.filter_typing typeOf

theorem filter_assignmentFindings (dialect : Dialect) (value : Option ExprType) (decl : VarDecl) :
    (decl.assignmentFindings dialect value).filter Finding.isUnknownName = [] := by
  unfold assignmentFindings
  split
  · split <;> rfl
  · rfl

end VarDecl

namespace Checking

variable {units : List SourceUnit} {unit : SourceUnit} {index : ℕ} {knows : String → Bool}

theorem findingsOf_report (index owner : ℕ) (state : Checking) (findings : List Finding) :
    findingsOf index (state.report owner findings).found =
      findingsOf index state.found ++ if owner = index then findings else [] := by
  rw [report, findingsOf_append]
  congr 1
  split
  · rename_i howner
    simp [findingsOf, List.filterMap_map, howner]
  · rename_i howner
    simp [findingsOf, List.filterMap_map, howner]

/-- A round adds what its statement looks up in vain to the findings of its unit. -/
theorem filter_findingsOf_checkRound (dialect : Dialect) (implicitAny : Bool) {state : Checking}
    (hknows : ∀ name, (state.scopes.type? index name).isSome = knows name) (round : Round) :
    (findingsOf index (checkRound dialect implicitAny state round).found).filter
        Finding.isUnknownName =
      (findingsOf index state.found).filter Finding.isUnknownName ++
        if round.1 = index then (round.2.1.unresolved knows).map Ident.unknown else [] := by
  have hnone : (fun name : Ident ↦ (state.scopes.type? index name.text).isNone) =
      fun name ↦ !knows name.text := by
    funext name
    rw [← hknows, Option.not_isSome]
  obtain ⟨owner, statement, number⟩ := round
  cases statement with
  | importNames decl =>
    simp [checkRound, checkStatement, Statement.unresolved, Statement.used,
      Statement.annotation?, Statement.value?]
  | expr value span =>
    rw [checkRound, checkStatement, findingsOf_report, List.filter_append]
    congr 1
    dsimp only
    split
    · rename_i howner
      subst howner
      rw [Expr.filter_typing, hnone]
      simp [Statement.unresolved, Statement.used, Statement.annotation?, Statement.value?]
    · rfl
  | var decl =>
    have hfound : (checkRound dialect implicitAny state (owner, .var decl, number)).found =
        (state.report owner (decl.headFindings implicitAny ++
          (decl.valueTyping (state.scopes.type? owner)).2 ++ decl.assignmentFindings dialect
            (decl.valueTyping (state.scopes.type? owner)).1)).found := rfl
    rw [hfound, findingsOf_report, List.filter_append]
    congr 1
    dsimp only
    split
    · rename_i howner
      subst howner
      rw [List.filter_append, List.filter_append, VarDecl.filter_headFindings,
        VarDecl.filter_valueTyping, VarDecl.filter_assignmentFindings, List.append_nil, hnone,
        ← List.map_append]
      rfl
    · rfl

/-- Nothing is looked up before the statements are checked. -/
theorem filter_findingsOf_prepared (units : List SourceUnit) (index : ℕ) :
    (findingsOf index (prepared units).found).filter Finding.isUnknownName = [] := by
  obtain ⟨imports, himports, hpass⟩ := adds_resolveImports units ⟨.ofUnits units, [], []⟩
  refine filter_findingsOf_eq_nil fun entry hentry ↦ ?_
  rw [prepared, himports, List.nil_append] at hentry
  rcases List.mem_append.1 hentry with hentry | hentry
  · exact Finding.isUnknownName_eq_false (hpass _ hentry) (by decide)
  · exact Finding.isUnknownName_eq_false (Scope.pass?_of_mem_allRedeclarations _ hentry)
      (by decide)

/-- The unknown names of a unit after some rounds are those of its statements among them. -/
theorem filter_findingsOf_stateAfter (settings : Assignment) (dialect : Dialect)
    (hknows : ∀ passed name, ((stateAfter units settings dialect passed).scopes.type? index
      name).isSome = knows name) (passed : List Round) :
    (findingsOf index (stateAfter units settings dialect passed).found).filter
        Finding.isUnknownName =
      passed.flatMap fun round ↦
        if round.1 = index then (round.2.1.unresolved knows).map Ident.unknown else [] := by
  induction passed using List.reverseRecOn with
  | nil => exact filter_findingsOf_prepared units index
  | append_singleton passed round ih =>
    have hstep : stateAfter units settings dialect (passed ++ [round]) =
        checkRound dialect (reportsImplicitAny settings)
          (stateAfter units settings dialect passed) round := by
      rw [stateAfter, List.foldl_append]
      rfl
    rw [hstep, filter_findingsOf_checkRound dialect _ (hknows passed), ih, List.flatMap_append,
      List.flatMap_singleton]

/-- The statements of a source come up in a check, each once and in their order. -/
theorem flatMap_rounds_eq {α : Type*} (hunit : units[index]? = some unit)
    (hsource : unit.isLibrary = false) (f : Statement → List α) :
    ((rounds units).flatMap fun round ↦ if round.1 = index then f round.2.1 else []) =
      unit.file.statements.flatMap f := by
  have hown : ((unit.numbered.map fun numbered ↦ ((index, numbered) : Round)).flatMap
      fun round ↦ if round.1 = index then f round.2.1 else []) =
        unit.file.statements.flatMap f := by
    conv_rhs => rw [← List.zipIdx_map_fst 0 unit.file.statements, List.flatMap_map]
    simp [List.flatMap_map, SourceUnit.numbered]
  rw [rounds, List.flatMap_assoc, flatMap_zipIdx_eq hunit]
  · dsimp only
    rw [if_neg (by rw [hsource]; decide), hown]
  · intro entry _ hindex
    refine List.flatMap_eq_nil_iff.2 fun round hround ↦ if_neg fun hsame ↦ hindex ?_
    dsimp only at hround
    split at hround
    · cases hround
    · obtain ⟨numbered, -, rfl⟩ := List.mem_map.1 hround
      exact hsame

end Checking

/-- Sorting leaves findings that are in the order of their places as they are, among all others. -/
theorem Finding.filter_sort {findings : List Finding} {p : Finding → Bool}
    (h : (findings.filter p).Pairwise fun first second ↦ first.span.start ≤ second.span.start) :
    (Finding.sort findings).filter p = findings.filter p := by
  have hordered : (findings.filter p).Pairwise fun first second ↦
      decide (first.span.start ≤ second.span.start) = true := by simpa using h
  have hsublist : (findings.filter p).Sublist (Finding.sort findings) :=
    List.sublist_mergeSort (by simp; omega) (by simp; omega) hordered List.filter_sublist
  have hfiltered : (findings.filter p).Sublist ((Finding.sort findings).filter p) := by
    have hsame : (findings.filter p).filter p = findings.filter p :=
      List.filter_eq_self.2 fun finding hfinding ↦ (List.mem_filter.1 hfinding).2
    exact hsame ▸ hsublist.filter p
  have hperm : ((Finding.sort findings).filter p).Perm (findings.filter p) :=
    (List.mergeSort_perm findings _).filter p
  exact (hfiltered.eq_of_length hperm.length_eq.symm).symm

namespace Checking

variable {units : List SourceUnit} {unit : SourceUnit} {index : ℕ}

/-- What is looked up in vain in a unit, and nothing else, in the order of the text. -/
structure Unresolved (units : List SourceUnit) (unit : SourceUnit) (names : List Ident) :
    Prop where
  inOrder : names.Pairwise fun first second ↦ first.span.start < second.span.start
  mem_iff : ∀ name, name ∈ names ↔
    (∃ decl, .var decl ∈ unit.file.statements ∧ decl.annotation = some name ∧
      name.text ∉ ["any", "number", "string", "boolean"]) ∨
    (∃ statement ∈ unit.file.statements, name ∈ statement.used) ∧
      ¬ unit.Knows units name.text

theorem unresolved_flatMap {knows : String → Bool} (hparsed : unit.file.Parsed)
    (hknows : ∀ name, knows name = true ↔ unit.Knows units name) :
    Unresolved units unit (unit.file.statements.flatMap (Statement.unresolved knows)) := by
  constructor
  · exact hparsed.pairwise_lookedUp.sublist (List.Sublist.flatMap_right _ fun statement _ ↦
      statement.unresolved_sublist knows)
  · intro name
    have hannotation : (∃ statement ∈ unit.file.statements, statement.annotation? = some name) ↔
        ∃ decl, .var decl ∈ unit.file.statements ∧ decl.annotation = some name := by
      constructor
      · rintro ⟨statement, hstatement, hname⟩
        cases statement with
        | var decl => exact ⟨decl, hstatement, hname⟩
        | importNames decl => cases hname
        | expr value span => cases hname
      · exact fun ⟨decl, hdecl, hname⟩ ↦ ⟨.var decl, hdecl, hname⟩
    have hunknown : (!knows name.text) = true ↔ ¬ unit.Knows units name.text := by
      rw [← hknows, Bool.not_eq_true', Bool.not_eq_true]
    simp only [List.mem_flatMap, Statement.unresolved, List.mem_append, List.mem_filter,
      Option.mem_toList, Ident.isNoType_iff, hunknown, and_or_left, exists_or, ← and_assoc,
      exists_and_right, ← hannotation]

/-- The names that a check reports as unknown in a source are those that are looked up in vain. -/
theorem exists_unresolved (hparsed : ∀ unit ∈ units, unit.file.Parsed)
    (hunit : units[index]? = some unit) (hsource : unit.isLibrary = false)
    (settings : Assignment) (dialect : Dialect) :
    ∃ names, Unresolved units unit names ∧
      (reported units settings dialect index).filter Finding.isUnknownName =
        names.map Ident.unknown := by
  let knows (name : String) : Bool := ((Scopes.ofUnits units).type? index name).isSome
  have hknows (name : String) : knows name = true ↔ unit.Knows units name :=
    Scopes.isSome_type?_ofUnits hunit name
  have hnames := unresolved_flatMap (hparsed unit (List.mem_of_getElem? hunit)) hknows
  refine ⟨_, hnames, ?_⟩
  have hsame (passed : List Round) (name : String) :
      ((stateAfter units settings dialect passed).scopes.type? index name).isSome = knows name :=
    Bool.eq_iff_iff.2
      ((isSome_type?_stateAfter hunit settings dialect passed name).trans (hknows name).symm)
  have hfound := filter_findingsOf_stateAfter settings dialect hsame (rounds units)
  rw [flatMap_rounds_eq hunit hsource fun statement ↦
    (statement.unresolved knows).map Ident.unknown, ← List.map_flatMap] at hfound
  have hordered : ((unit.file.statements.flatMap (Statement.unresolved knows)).map
      Ident.unknown).Pairwise fun first second ↦ first.span.start ≤ second.span.start :=
    List.pairwise_map.2 (hnames.inOrder.imp Nat.le_of_lt)
  rw [reported, hunit, Option.all_some, hsource, if_neg Bool.false_ne_true,
    Finding.filter_sort (by rwa [hfound]), hfound]

end Checking

namespace Program

/-- In the units of a program, whatever they are checked with, just those names are reported as
unknown that a source looks up in vain: words of annotations that are no types, and names, at any
depth of the expressions that count, that are declared nowhere the unit looks, be it before or
behind.  Each is reported once, in the order of the text. -/
theorem exists_unresolved_of_build {dialect : Dialect} {roots : List String}
    {settings : Assignment} {services : Services} {library : Library}
    {history : List Store.Operation} {program : Program} {after : Store}
    (hbuild : build dialect roots settings (Store.ofHistory services library history) =
      .ok (program, after)) (settings' : Assignment) (dialect' : Dialect) :
    (Checking.check program.units settings' dialect').diagnostics =
      program.units.zipIdx.flatMap (fun (unit, index) ↦
        (Checking.reported program.units settings' dialect' index).map fun finding ↦
          finding.toDiagnostic unit.file.name) ∧
    ∀ index unit, program.units[index]? = some unit → unit.isLibrary = false →
      ∃ names, Checking.Unresolved program.units unit names ∧
        (Checking.reported program.units settings' dialect' index).filter
          (fun finding ↦ finding.problem.code = 2304) = names.map Ident.unknown := by
  have hbuilt := built_of_build (Store.keepsParsed_ofHistory services library history) hbuild
  exact ⟨Checking.diagnostics_check program.units settings' dialect', fun _ _ hunit hsource ↦
    Checking.exists_unresolved hbuilt.parsed hunit hsource settings' dialect'⟩

/-- A call of something unknown with a name that is declared further down. -/
theorem exists_unresolved_of_build_late_name :
    let store := Store.ofHistory .language .bundled
      [.add "a.ts" "let n: number = f(1, (late));\nvar late = 1;"]
    let settings := Assignment.empty.set "noLib" (.bool true)
    ∃ program after unit names, build ⟨3⟩ ["a.ts"] settings store = .ok (program, after) ∧
      program.units[0]? = some unit ∧ Checking.Unresolved program.units unit names ∧
      names.map Ident.unknown = [⟨.unknownName "f", ⟨16, 17⟩⟩] := by
  intro store settings
  have hfacts : ((build ⟨3⟩ ["a.ts"] settings store).toOption.any fun (program, _) ↦
      program.units[0]?.any (fun unit ↦ !unit.isLibrary) &&
      (Checking.reported program.units settings ⟨3⟩ 0).filter
        (fun finding ↦ finding.problem.code = 2304) == [⟨.unknownName "f", ⟨16, 17⟩⟩]) = true := by
    decide +kernel
  obtain ⟨⟨program, after⟩, hbuild, hfacts⟩ := exists_ok_of_any hfacts
  simp only [Bool.and_eq_true, beq_iff_eq, Option.any_eq_true, Bool.not_eq_true'] at hfacts
  obtain ⟨⟨unit, hunit, hsource⟩, hreported⟩ := hfacts
  obtain ⟨-, hexact⟩ := exists_unresolved_of_build hbuild settings ⟨3⟩
  obtain ⟨names, hnames, hfiltered⟩ := hexact 0 unit hunit hsource
  exact ⟨program, after, unit, names, hbuild, hunit, hnames, hfiltered.symm.trans hreported⟩

end Program

end VersionSweep
