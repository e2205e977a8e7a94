import VersionSweep.Proofs.Typing.CheckRun
import VersionSweep.Proofs.Typing.ModuleIsolation

/-!
# What each pass of a check reports

The passes of a check report different problems: resolving imports those of imports, the visit of
the scopes those of names that are declared more than once, and the statements all others.  The
scopes only change by symbols that are given types, so that a property of scopes which types have no
part in lasts for the whole check.
-/

namespace VersionSweep

inductive CheckPass where
  | imports
  | redeclarations
  | statements
  deriving DecidableEq

/-- The pass of a check that reports a problem, for those that a check reports. -/
def Problem.pass? : Problem → Option CheckPass
  | moduleNotFound _ | notAModule _ | noSuchExport _ _ => some .imports
  | importConflict _ | duplicateImport _ | redeclaration _ => some .redeclarations
  | unknownName _ | constantWithoutValue | implicitAny _ | ambientInitializer | notAssignable _ _
  | notCallable _ => some .statements
  | _ => none

/-- A property of scopes that stays when symbols are given types. -/
def Scopes.TypeFree (P : Scopes → Prop) : Prop :=
  ∀ scopes unit statement name type, P scopes → P (scopes.setType unit statement name type)

/-! ## Statements report in their own pass -/

namespace Expr

mutual

theorem pass?_typing (typeOf : String → Option BasicType) :
    (e : Expr) → ∀ finding ∈ (e.typing typeOf).2, finding.problem.pass? = some .statements
  | .number _ _, _, hfinding => by cases hfinding
  | .string _ _, _, hfinding => by cases hfinding
  | .bool _ _, _, hfinding => by cases hfinding
  | .name ident, finding, hfinding => by
    rw [typing] at hfinding
    split at hfinding
    · cases hfinding
    · obtain rfl := List.mem_singleton.1 hfinding
      rfl
  | .paren inner _, finding, hfinding => by
    rw [typing] at hfinding
    exact pass?_typing typeOf inner finding hfinding
  | .member object _ _, finding, hfinding => by
    rw [typing] at hfinding
    exact pass?_typing typeOf object finding hfinding
  | .call callee arguments _, finding, hfinding => by
    rw [typing] at hfinding
    rcases List.mem_append.1 hfinding with hfinding | hfinding
    · rcases List.mem_append.1 hfinding with hfinding | hfinding
      · exact pass?_typing typeOf callee finding hfinding
      · unfold callFindings at hfinding
        split at hfinding
        · cases hfinding
        · obtain rfl := List.mem_singleton.1 hfinding
          rfl
    · exact pass?_typings typeOf arguments finding hfinding

theorem pass?_typings (typeOf : String → Option BasicType) :
    (arguments : List Expr) →
      ∀ finding ∈ typings typeOf arguments, finding.problem.pass? = some .statements
  | [], _, hfinding => by cases hfinding
  | argument :: rest, finding, hfinding => by
    rw [typings] at hfinding
    rcases List.mem_append.1 hfinding with hfinding | hfinding
    · exact pass?_typing typeOf argument finding hfinding
    · exact pass?_typings typeOf rest finding hfinding

end

end Expr

namespace VarDecl

theorem pass?_headFindings (implicitAny : Bool) (decl : VarDecl) :
    ∀ finding ∈ decl.headFindings implicitAny, finding.problem.pass? = some .statements := by
  intro finding hfinding
  rcases List.mem_append.1 hfinding with hfinding | hfinding
  · rcases List.mem_append.1 hfinding with hfinding | hfinding
    · split at hfinding
      · split at hfinding
        · exact List.mem_singleton.1 hfinding ▸ rfl
        · cases hfinding
      · cases hfinding
    · split at hfinding
      · exact List.mem_singleton.1 hfinding ▸ rfl
      · cases hfinding
  · split at hfinding
    · exact List.mem_singleton.1 hfinding ▸ rfl
    · cases hfinding

theorem pass?_valueTyping (typeOf : String → Option BasicType) (decl : VarDecl) :
    ∀ finding ∈ (decl.valueTyping typeOf).2, finding.problem.pass? = some .statements := by
  intro finding hfinding
  unfold valueTyping at hfinding
  split at hfinding
  · cases hfinding
  · split at hfinding
    · exact List.mem_singleton.1 hfinding ▸ rfl
    · exact Expr.pass?_typing typeOf _ finding hfinding

theorem pass?_assignmentFindings (dialect : Dialect) (value : Option ExprType) (decl : VarDecl) :
    ∀ finding ∈ decl.assignmentFindings dialect value,
      finding.problem.pass? = some .statements := by
  intro finding hfinding
  unfold assignmentFindings at hfinding
  split at hfinding
  · split at hfinding
    · cases hfinding
    · exact List.mem_singleton.1 hfinding ▸ rfl
  · cases hfinding

end VarDecl

theorem Scope.pass?_of_mem_redeclarations {name : String} {symbols : List Symbol}
    {entry : Symbol × Problem} (h : entry ∈ redeclarations name symbols) :
    entry.2.pass? = some .redeclarations := by
  unfold redeclarations at h
  dsimp only at h
  split at h
  · cases h
  split at h
  · obtain ⟨symbol, -, rfl⟩ := List.mem_map.1 h
    rfl
  split at h
  · obtain ⟨symbol, -, rfl⟩ := List.mem_map.1 h
    rfl
  split at h
  · obtain ⟨symbol, -, rfl⟩ := List.mem_map.1 h
    rfl
  · cases h

theorem Scope.pass?_of_mem_allRedeclarations {scopes : List Scope} :
    ∀ entry ∈ allRedeclarations scopes, entry.2.problem.pass? = some .redeclarations := by
  intro entry hentry
  obtain ⟨scope, -, hentry⟩ := List.mem_flatMap.1 hentry
  obtain ⟨named, -, hentry⟩ := List.mem_flatMap.1 hentry
  obtain ⟨reported, hreported, rfl⟩ := List.mem_map.1 hentry
  exact pass?_of_mem_redeclarations hreported

namespace Checking

theorem mem_findingsOf {index : ℕ} {finding : Finding} {found : List (ℕ × Finding)} :
    finding ∈ findingsOf index found ↔ (index, finding) ∈ found := by
  simp [findingsOf]

theorem filter_findingsOf_eq_nil {index : ℕ} {found : List (ℕ × Finding)} {p : Finding → Bool}
    (h : ∀ entry ∈ found, p entry.2 = false) : (findingsOf index found).filter p = [] :=
  List.filter_eq_nil_iff.2 fun _ hfinding ↦ Bool.eq_false_iff.1 (h _ (mem_findingsOf.1 hfinding))

/-! ## Steps of a check -/

def Adds (pass : CheckPass) (state after : Checking) : Prop :=
  ∃ more, after.found = state.found ++ more ∧
    ∀ entry ∈ more, entry.2.problem.pass? = some pass

variable {pass : CheckPass} {state after : Checking} {P : Scopes → Prop}

theorem Adds.refl (pass : CheckPass) (state : Checking) : Adds pass state state :=
  ⟨[], (List.append_nil _).symm, by simp⟩

theorem Adds.report (h : Adds pass state after) (unit : ℕ) {findings : List Finding}
    (hfindings : ∀ finding ∈ findings, finding.problem.pass? = some pass) :
    Adds pass state (after.report unit findings) := by
  obtain ⟨more, hfound, hmore⟩ := h
  refine ⟨more ++ findings.map fun finding ↦ (unit, finding), ?_, fun entry hentry ↦ ?_⟩
  · rw [Checking.report, hfound, List.append_assoc]
  · rcases List.mem_append.1 hentry with hentry | hentry
    · exact hmore entry hentry
    · obtain ⟨finding, hfinding, rfl⟩ := List.mem_map.1 hentry
      exact hfindings finding hfinding

/-- Importing a name gives a symbol a type or reports something. -/
theorem importName_cases (unit statement target : ℕ) (specifier : String) (state : Checking)
    (name : Ident) :
    (∃ type, state.importName unit statement target specifier name =
      { state with scopes := state.scopes.setType unit statement name.text type }) ∨
    state.importName unit statement target specifier name =
      state.report unit [⟨.noSuchExport specifier name.text, name.span⟩] := by
  unfold importName
  split
  · exact .inl ⟨_, rfl⟩
  · exact .inr rfl

/-- What an import does: nothing if it is none, else one report, or its names are imported. -/
theorem resolveImport_cases (units : List SourceUnit) (index : ℕ) (unit : SourceUnit)
    (state : Checking) (numbered : Statement × ℕ) :
    resolveImport units index unit state numbered = state ∨
    (∃ finding : Finding, finding.problem.pass? = some .imports ∧
      resolveImport units index unit state numbered = state.report index [finding]) ∨
    ∃ (names : List Ident) (target : ℕ) (specifier : String),
      resolveImport units index unit state numbered =
        names.foldl (importName index numbered.2 target specifier) state := by
  obtain ⟨statement, number⟩ := numbered
  cases statement with
  | var decl => exact .inl rfl
  | expr value span => exact .inl rfl
  | importNames decl =>
    unfold resolveImport
    dsimp only
    split
    · exact .inr (.inl ⟨_, rfl, rfl⟩)
    · split
      · exact .inl rfl
      · split
        · exact .inr (.inr ⟨_, _, _, rfl⟩)
        · exact .inr (.inl ⟨_, rfl, rfl⟩)

/-- What lasts when a symbol is given a type and when something is reported about an import lasts
while imports are resolved. -/
theorem resolveImports_induction {Q : Checking → Prop}
    (hset : ∀ after unit statement name type, Q after →
      Q { after with scopes := after.scopes.setType unit statement name type })
    (hreport : ∀ after unit (finding : Finding), finding.problem.pass? = some .imports →
      Q after → Q (after.report unit [finding]))
    (h : Q state) (units : List SourceUnit) : Q (state.resolveImports units) := by
  refine List.foldlRecOn (motive := Q) _ _ h fun after h entry _ ↦ ?_
  refine List.foldlRecOn (motive := Q) _ _ h fun after h numbered _ ↦ ?_
  obtain hsame | ⟨finding, hfinding, hresolved⟩ | ⟨names, target, specifier, hresolved⟩ :=
    resolveImport_cases units entry.2 entry.1 after numbered
  · rwa [hsame]
  · rw [hresolved]
    exact hreport after entry.2 finding hfinding h
  · rw [hresolved]
    refine List.foldlRecOn (motive := Q) _ _ h fun after h name _ ↦ ?_
    obtain ⟨type, hname⟩ | hname :=
      importName_cases entry.2 numbered.2 target specifier after name
    · rw [hname]
      exact hset after entry.2 numbered.2 name.text type h
    · rw [hname]
      exact hreport after entry.2 _ rfl h

theorem adds_resolveImports (units : List SourceUnit) (state : Checking) :
    Adds .imports state (state.resolveImports units) :=
  resolveImports_induction (fun _ _ _ _ _ h ↦ h)
    (fun _ unit _ hfinding h ↦ h.report unit (by simpa using hfinding)) (.refl .imports state) units

theorem Adds.checkRound (h : Adds .statements state after) (dialect : Dialect) (implicitAny : Bool)
    (round : Round) : Adds .statements state (checkRound dialect implicitAny after round) := by
  obtain ⟨index, statement, number⟩ := round
  cases statement with
  | importNames decl => exact h
  | expr value span => exact h.report index (Expr.pass?_typing _ value)
  | var decl =>
    refine h.report index fun finding hfinding ↦ ?_
    rcases List.mem_append.1 hfinding with hfinding | hfinding
    · rcases List.mem_append.1 hfinding with hfinding | hfinding
      · exact VarDecl.pass?_headFindings implicitAny decl finding hfinding
      · exact VarDecl.pass?_valueTyping _ decl finding hfinding
    · exact VarDecl.pass?_assignmentFindings dialect _ decl finding hfinding

theorem scopes_resolveImports (hP : Scopes.TypeFree P) (h : P state.scopes)
    (units : List SourceUnit) : P (state.resolveImports units).scopes :=
  resolveImports_induction (Q := fun after ↦ P after.scopes)
    (fun after unit statement name type h ↦ hP after.scopes unit statement name type h)
    (fun _ _ _ _ h ↦ h) h units

theorem scopes_checkRound (hP : Scopes.TypeFree P) (h : P state.scopes) (dialect : Dialect)
    (implicitAny : Bool) (round : Round) :
    P (checkRound dialect implicitAny state round).scopes := by
  obtain ⟨index, statement, number⟩ := round
  cases statement with
  | importNames decl => exact h
  | expr value span => exact h
  | var decl => exact hP _ _ _ _ _ h

/-! ## The whole check -/

/-- What is found in a check: first what is wrong with imports, then the names that are declared
more than once, then what is wrong with statements. -/
theorem exists_found_stateAfter (units : List SourceUnit) (settings : Assignment)
    (dialect : Dialect) (passed : List Round) :
    ∃ imports statements,
      (stateAfter units settings dialect passed).found = imports ++
        Scope.allRedeclarations
          ((⟨.ofUnits units, [], []⟩ : Checking).resolveImports units).scopes.all ++ statements ∧
      (∀ entry ∈ imports, entry.2.problem.pass? = some .imports) ∧
      ∀ entry ∈ statements, entry.2.problem.pass? = some .statements := by
  obtain ⟨imports, himports, hpass⟩ := adds_resolveImports units ⟨.ofUnits units, [], []⟩
  have hadds : Adds .statements (prepared units) (stateAfter units settings dialect passed) :=
    List.foldlRecOn (motive := Adds .statements (prepared units)) _ _ (.refl _ _)
      fun after h round _ ↦ h.checkRound dialect _ round
  obtain ⟨statements, hstatements, hpass'⟩ := hadds
  refine ⟨imports, statements, ?_, hpass, hpass'⟩
  rw [hstatements, prepared, himports]
  rfl

/-- What a check reports about the unit with a number, by place, nothing about the library. -/
def reported (units : List SourceUnit) (settings : Assignment) (dialect : Dialect) (index : ℕ) :
    List Finding :=
  if units[index]?.all SourceUnit.isLibrary then []
  else Finding.sort (findingsOf index (stateAfter units settings dialect (rounds units)).found)

/-- The diagnostics of a check are what it reports about the units, unit after unit. -/
theorem diagnostics_check (units : List SourceUnit) (settings : Assignment) (dialect : Dialect) :
    (check units settings dialect).diagnostics = units.zipIdx.flatMap fun (unit, index) ↦
      (reported units settings dialect index).map fun finding ↦
        finding.toDiagnostic unit.file.name := by
  rw [check_eq_stateAfter]
  refine List.flatMap_congr fun entry hentry ↦ ?_
  have hunit := List.mem_zipIdx_iff_getElem?.1 hentry
  dsimp only
  rw [reported, hunit]
  dsimp only [Option.all_some]
  split <;> rfl

end Checking

end VersionSweep
