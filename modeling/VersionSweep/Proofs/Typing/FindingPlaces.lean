import VersionSweep.Proofs.Language.SourceSpans
import VersionSweep.Proofs.Typing.SymbolInvariants
import VersionSweep.Typing.Checking

/-!
# Places of findings

A check reports a finding at the place of something that was read: a name, an expression or the text
after `from`.  So if the spans of all units lie within their texts, then so do the findings.  The
symbols of the scopes carry places from one unit into findings about others, hence the invariant
`Checking.Placed` speaks of the scopes as well.
-/

namespace VersionSweep

variable {cs : List Char}

namespace Expr

theorem within_callFindings {callee : Expr} {type : BasicType} {finding : Finding}
    (h : callee.Built (Token.StandsIn cs)) (hfinding : finding ∈ callFindings callee type) :
    finding.span.Within cs := by
  unfold callFindings at hfinding
  split at hfinding
  · cases hfinding
  · obtain rfl := List.mem_singleton.1 hfinding
    exact h.within

mutual

/-- What is found in an expression lies within the text that the expression was read from. -/
theorem within_typing (typeOf : String → Option BasicType) :
    (e : Expr) → e.Built (Token.StandsIn cs) →
      ∀ finding ∈ (e.typing typeOf).2, finding.span.Within cs
  | .number _ _, _, _, hfinding => by cases hfinding
  | .string _ _, _, _, hfinding => by cases hfinding
  | .bool _ _, _, _, hfinding => by cases hfinding
  | .name ident, h, finding, hfinding => by
    rw [typing] at hfinding
    split at hfinding
    · cases hfinding
    · obtain rfl := List.mem_singleton.1 hfinding
      exact Ident.Of.within h
  | .paren inner _, h, finding, hfinding => by
    rw [typing] at hfinding
    exact within_typing typeOf inner h.1 finding hfinding
  | .member object _ _, h, finding, hfinding => by
    rw [typing] at hfinding
    exact within_typing typeOf object h.1 finding hfinding
  | .call callee arguments _, h, finding, hfinding => by
    rw [typing] at hfinding
    rcases List.mem_append.1 hfinding with hfinding | hfinding
    · rcases List.mem_append.1 hfinding with hfinding | hfinding
      · exact within_typing typeOf callee h.1 finding hfinding
      · exact within_callFindings h.1 hfinding
    · exact within_typings typeOf arguments h.2.1 finding hfinding

theorem within_typings (typeOf : String → Option BasicType) :
    (arguments : List Expr) → AllBuilt (Token.StandsIn cs) arguments →
      ∀ finding ∈ typings typeOf arguments, finding.span.Within cs
  | [], _, _, hfinding => by cases hfinding
  | argument :: rest, h, finding, hfinding => by
    rw [typings] at hfinding
    rcases List.mem_append.1 hfinding with hfinding | hfinding
    · exact within_typing typeOf argument h.1 finding hfinding
    · exact within_typings typeOf rest h.2 finding hfinding

end

end Expr

def Span.PlacedIn (units : List SourceUnit) (index : Nat) (span : Span) : Prop :=
  ∃ unit, units[index]? = some unit ∧ span.Within unit.file.text.toList

def Symbol.PlacedIn (units : List SourceUnit) (symbol : Symbol) : Prop :=
  symbol.span.PlacedIn units symbol.unit

theorem Symbol.typeFree_placedIn (units : List SourceUnit) : TypeFree (PlacedIn units) :=
  fun _ _ h ↦ h

variable {units : List SourceUnit} {unit : SourceUnit} {index : Nat}

theorem SourceUnit.built_of_mem_numbered (h : unit.file.Sound) {numbered : Statement × Nat}
    (hmem : numbered ∈ unit.numbered) :
    numbered.1.Built (Token.StandsIn unit.file.text.toList) :=
  h.statements _ (List.fst_mem_of_mem_zipIdx hmem)

theorem SourceUnit.placedIn_symbols (h : unit.file.Sound) (hunit : units[index]? = some unit) :
    ∀ entry ∈ unit.symbols index, entry.2.PlacedIn units := by
  intro entry hentry
  obtain ⟨⟨statement, number⟩, hnumbered, hsymbol⟩ := List.mem_flatMap.1 hentry
  have hbuilt := built_of_mem_numbered h hnumbered
  cases statement with
  | var decl =>
    obtain rfl := List.mem_singleton.1 hsymbol
    exact ⟨unit, hunit, hbuilt.name.within⟩
  | importNames decl =>
    obtain ⟨name, hname, rfl⟩ := List.mem_map.1 hsymbol
    exact ⟨unit, hunit, (hbuilt.names name hname).within⟩
  | expr value span => cases hsymbol

namespace Checking

/-- Whether a check has placed its findings, and the symbols from which more may come, within the
texts of their units. -/
structure Placed (units : List SourceUnit) (state : Checking) : Prop where
  found : ∀ entry ∈ state.found, entry.2.span.PlacedIn units entry.1
  scopes : state.scopes.Every (Symbol.PlacedIn units)

variable {state : Checking}

theorem Placed.report (h : state.Placed units) (hunit : units[index]? = some unit)
    {findings : List Finding}
    (hfindings : ∀ finding ∈ findings, finding.span.Within unit.file.text.toList) :
    (state.report index findings).Placed units := by
  refine ⟨fun entry hentry ↦ ?_, h.scopes⟩
  rcases List.mem_append.1 hentry with hentry | hentry
  · exact h.found entry hentry
  · obtain ⟨finding, hfinding, rfl⟩ := List.mem_map.1 hentry
    exact ⟨unit, hunit, hfindings finding hfinding⟩

theorem Placed.report_singleton (h : state.Placed units) (hunit : units[index]? = some unit)
    {problem : Problem} {span : Span} (hspan : span.Within unit.file.text.toList) :
    (state.report index [⟨problem, span⟩]).Placed units :=
  h.report hunit fun finding hfinding ↦ by
    obtain rfl := List.mem_singleton.1 hfinding
    exact hspan

theorem Placed.setType (h : state.Placed units) (index statement : Nat) (name : String)
    (type : BasicType) :
    ({ state with scopes := state.scopes.setType index statement name type } :
      Checking).Placed units :=
  ⟨h.found, h.scopes.setType (Symbol.typeFree_placedIn units) index statement name type⟩

theorem Placed.importName (h : state.Placed units) (hunit : units[index]? = some unit)
    {name : Ident} (hname : name.span.Within unit.file.text.toList) (statement target : Nat)
    (specifier : String) :
    (state.importName index statement target specifier name).Placed units := by
  unfold Checking.importName
  split
  · exact h.setType index statement name.text _
  · exact h.report_singleton hunit hname

theorem Placed.resolveImport (h : state.Placed units) (hunit : units[index]? = some unit)
    {numbered : Statement × Nat}
    (hbuilt : numbered.1.Built (Token.StandsIn unit.file.text.toList)) :
    (resolveImport units index unit state numbered).Placed units := by
  obtain ⟨statement, number⟩ := numbered
  cases statement with
  | var decl => exact h
  | expr value span => exact h
  | importNames decl =>
    obtain ⟨token, htoken, -, -, hspan⟩ := hbuilt.specifier
    have hspecifier : decl.specifierSpan.Within unit.file.text.toList := hspan ▸ htoken.within
    unfold Checking.resolveImport
    dsimp only
    split
    · exact h.report_singleton hunit hspecifier
    split
    · exact h
    split
    · refine List.foldlRecOn (motive := Placed units) _ _ h fun state hstate name hname ↦ ?_
      exact hstate.importName hunit (hbuilt.names name hname).within _ _ _
    · exact h.report_singleton hunit hspecifier

theorem placed_ofUnits (hunits : ∀ unit ∈ units, unit.file.Sound) :
    (⟨.ofUnits units, [], []⟩ : Checking).Placed units := by
  refine ⟨fun _ h ↦ (List.not_mem_nil h).elim, Scopes.every_ofUnits fun unit index hunit ↦ ?_⟩
  exact SourceUnit.placedIn_symbols (hunits unit (List.mem_of_getElem? hunit)) hunit

theorem Placed.resolveImports (h : state.Placed units)
    (hunits : ∀ unit ∈ units, unit.file.Sound) : (state.resolveImports units).Placed units := by
  refine List.foldlRecOn (motive := Placed units) _ _ h fun state hstate numbered hmem ↦ ?_
  have hunit := List.mem_zipIdx_iff_getElem?.1 hmem
  refine List.foldlRecOn (motive := Placed units) _ _ hstate fun state hstate _ hstatement ↦ ?_
  exact hstate.resolveImport hunit
    (SourceUnit.built_of_mem_numbered (hunits _ (List.mem_of_getElem? hunit)) hstatement)

end Checking

namespace Scope

theorem mem_of_mem_redeclarations {name : String} {symbols : List Symbol}
    {entry : Symbol × Problem} (h : entry ∈ redeclarations name symbols) : entry.1 ∈ symbols := by
  have hfilter {keep : Symbol → Bool} {problem : Problem}
      (hentry : entry ∈ (symbols.filter keep).map fun symbol ↦ (symbol, problem)) :
      entry.1 ∈ symbols := by
    obtain ⟨symbol, hsymbol, rfl⟩ := List.mem_map.1 hentry
    exact (List.mem_filter.1 hsymbol).1
  unfold redeclarations at h
  dsimp only at h
  split at h
  · cases h
  split at h
  · exact hfilter h
  split at h
  · exact hfilter h
  split at h
  · exact hfilter h
  · cases h

theorem placedIn_allRedeclarations {scopes : List Scope}
    (h : ∀ scope ∈ scopes, scope.Every (Symbol.PlacedIn units)) :
    ∀ entry ∈ allRedeclarations scopes, entry.2.span.PlacedIn units entry.1 := by
  intro entry hentry
  obtain ⟨scope, hscope, hentry⟩ := List.mem_flatMap.1 hentry
  obtain ⟨named, hnamed, hentry⟩ := List.mem_flatMap.1 hentry
  obtain ⟨reported, hreported, rfl⟩ := List.mem_map.1 hentry
  exact h scope hscope named hnamed _ (mem_of_mem_redeclarations hreported)

end Scope

namespace VarDecl

variable {decl : VarDecl}

theorem within_headFindings (h : decl.Built (Token.StandsIn cs)) (implicitAny : Bool) :
    ∀ finding ∈ decl.headFindings implicitAny, finding.span.Within cs := by
  intro finding hfinding
  rcases List.mem_append.1 hfinding with hfinding | hfinding
  · rcases List.mem_append.1 hfinding with hfinding | hfinding
    · split at hfinding
      · rename_i annotation hwritten
        split at hfinding
        · obtain rfl := List.mem_singleton.1 hfinding
          exact Ident.Of.within (VarDecl.Built.annotation h annotation hwritten)
        · cases hfinding
      · cases hfinding
    · split at hfinding
      · obtain rfl := List.mem_singleton.1 hfinding
        exact h.name.within
      · cases hfinding
  · split at hfinding
    · obtain rfl := List.mem_singleton.1 hfinding
      exact h.name.within
    · cases hfinding

theorem within_valueTyping (h : decl.Built (Token.StandsIn cs))
    (typeOf : String → Option BasicType) :
    ∀ finding ∈ (decl.valueTyping typeOf).2, finding.span.Within cs := by
  intro finding hfinding
  unfold valueTyping at hfinding
  split at hfinding
  · cases hfinding
  · rename_i init hinit
    split at hfinding
    · obtain rfl := List.mem_singleton.1 hfinding
      exact (h.init init hinit).within
    · exact Expr.within_typing typeOf init (h.init init hinit) finding hfinding

theorem within_assignmentFindings (h : decl.Built (Token.StandsIn cs)) (dialect : Dialect)
    (value : Option ExprType) :
    ∀ finding ∈ decl.assignmentFindings dialect value, finding.span.Within cs := by
  intro finding hfinding
  unfold assignmentFindings at hfinding
  split at hfinding
  · rename_i init _ hinit
    split at hfinding
    · cases hfinding
    · obtain rfl := List.mem_singleton.1 hfinding
      exact (h.init init hinit).within
  · cases hfinding

end VarDecl

namespace Checking

variable {state : Checking}

theorem Placed.checkVar (h : state.Placed units) (hunit : units[index]? = some unit)
    {decl : VarDecl} (hdecl : decl.Built (Token.StandsIn unit.file.text.toList))
    (dialect : Dialect) (implicitAny : Bool) (statement : Nat) :
    (state.checkVar dialect implicitAny index statement decl).Placed units := by
  have hfindings : ∀ finding ∈ decl.headFindings implicitAny ++
      (decl.valueTyping (state.scopes.type? index)).2 ++
      decl.assignmentFindings dialect (decl.valueTyping (state.scopes.type? index)).1,
      finding.span.Within unit.file.text.toList := by
    intro finding hfinding
    rcases List.mem_append.1 hfinding with hfinding | hfinding
    · rcases List.mem_append.1 hfinding with hfinding | hfinding
      · exact VarDecl.within_headFindings hdecl implicitAny finding hfinding
      · exact VarDecl.within_valueTyping hdecl _ finding hfinding
    · exact VarDecl.within_assignmentFindings hdecl dialect _ finding hfinding
  exact ⟨(h.report hunit hfindings).found, (h.setType index statement _ _).scopes⟩

theorem Placed.checkStatement (h : state.Placed units) (hunit : units[index]? = some unit)
    {numbered : Statement × Nat}
    (hbuilt : numbered.1.Built (Token.StandsIn unit.file.text.toList)) (dialect : Dialect)
    (implicitAny : Bool) :
    (checkStatement dialect implicitAny index state numbered).Placed units := by
  obtain ⟨statement, number⟩ := numbered
  cases statement with
  | var decl => exact h.checkVar hunit hbuilt dialect implicitAny number
  | expr value span => exact h.report hunit (Expr.within_typing _ value hbuilt.1)
  | importNames decl => exact h

theorem Placed.checkUnits (h : state.Placed units) (hunits : ∀ unit ∈ units, unit.file.Sound)
    (dialect : Dialect) (implicitAny : Bool) :
    (state.checkUnits dialect implicitAny units).Placed units := by
  refine List.foldlRecOn (motive := Placed units) _ _ h fun state hstate numbered hmem ↦ ?_
  have hunit := List.mem_zipIdx_iff_getElem?.1 hmem
  dsimp only
  split
  · exact hstate
  refine List.foldlRecOn (motive := Placed units) _ _ hstate fun state hstate _ hstatement ↦ ?_
  exact hstate.checkStatement hunit
    (SourceUnit.built_of_mem_numbered (hunits _ (List.mem_of_getElem? hunit)) hstatement) _ _

/-- A diagnostic of a placed check comes from a unit other than the library and lies within it. -/
theorem Placed.exists_unit (h : state.Placed units) {diagnostic : Diagnostic}
    (hdiagnostic : diagnostic ∈ state.diagnostics units) :
    ∃ unit ∈ units, unit.isLibrary = false ∧ ∃ finding : Finding,
      finding.span.Within unit.file.text.toList ∧
        diagnostic = finding.toDiagnostic unit.file.name := by
  obtain ⟨⟨unit, index⟩, hmem, hdiagnostic⟩ := List.mem_flatMap.1 hdiagnostic
  have hunit := List.mem_zipIdx_iff_getElem?.1 hmem
  dsimp only at hdiagnostic hunit
  split at hdiagnostic
  · cases hdiagnostic
  · rename_i hlibrary
    obtain ⟨finding, hfinding, rfl⟩ := List.mem_map.1 hdiagnostic
    obtain ⟨⟨owner, found⟩, hfound, hown⟩ :=
      List.mem_filterMap.1 (SourceFile.mem_sort.1 hfinding)
    dsimp only at hown
    split at hown
    · rename_i howner
      obtain rfl := Option.some.inj hown
      obtain ⟨unit', hunit', hwithin⟩ := h.found _ hfound
      dsimp only at hunit' hwithin
      obtain rfl : unit = unit' := Option.some.inj (hunit ▸ howner ▸ hunit'.symm ▸ rfl)
      exact ⟨unit, List.mem_of_getElem? hunit, by simpa using hlibrary, found, hwithin, rfl⟩
    · cases hown

/-- Whatever a check reports lies within a unit that is not the library. -/
theorem exists_unit_of_mem_check (hunits : ∀ unit ∈ units, unit.file.Sound)
    (settings : Assignment) (dialect : Dialect) {diagnostic : Diagnostic}
    (hdiagnostic : diagnostic ∈ (check units settings dialect).diagnostics) :
    ∃ unit ∈ units, unit.isLibrary = false ∧ ∃ finding : Finding,
      finding.span.Within unit.file.text.toList ∧
        diagnostic = finding.toDiagnostic unit.file.name := by
  have hresolved := (placed_ofUnits hunits).resolveImports hunits
  have hredeclared : Placed units
      { (⟨.ofUnits units, [], []⟩ : Checking).resolveImports units with
        found := ((⟨.ofUnits units, [], []⟩ : Checking).resolveImports units).found ++
          Scope.allRedeclarations
            ((⟨.ofUnits units, [], []⟩ : Checking).resolveImports units).scopes.all } := by
    refine ⟨fun entry hentry ↦ ?_, hresolved.scopes⟩
    rcases List.mem_append.1 hentry with hentry | hentry
    · exact hresolved.found entry hentry
    · exact Scope.placedIn_allRedeclarations hresolved.scopes.all entry hentry
  exact (hredeclared.checkUnits hunits dialect (reportsImplicitAny settings)).exists_unit
    hdiagnostic

end Checking

end VersionSweep
