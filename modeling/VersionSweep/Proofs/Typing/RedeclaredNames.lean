import VersionSweep.Proofs.Typing.DeclarationSites

/-!
# Names that are declared more than once

A name is reported if its scope holds several declarations of it, unless all of them are by `var`.
Without an import among them all the declarations are reported, with one only the imports are.  Each
place is reported once, since a declaration goes to one scope, under one name.
-/

namespace VersionSweep

/-- Whether a finding is about a name that is declared more than once. -/
def Finding.isRedeclaration (finding : Finding) : Bool :=
  [2451, 2440, 2300].contains finding.problem.code

theorem Finding.isRedeclaration_iff {finding : Finding} :
    finding.isRedeclaration = true ↔ finding.problem.pass? = some .redeclarations := by
  obtain ⟨problem, span⟩ := finding
  cases problem <;> simp [isRedeclaration, Problem.code, Problem.pass?]

/-! ## The verdict on a name -/

theorem Symbol.isBlockScoped_iff {symbol : Symbol} (h : symbol.isImport = false) :
    symbol.isBlockScoped = true ↔ symbol.role ≠ .declared .var := by
  unfold Symbol.isImport at h
  unfold Symbol.isBlockScoped
  cases hrole : symbol.role with
  | imported => simp [hrole] at h
  | declared keyword => simp [VarKeyword.isBlockScoped]

namespace Scope

variable {symbols : List Symbol}

/-- Without an import among them, all declarations are reported or none is. -/
theorem redeclarations_of_no_import (name : String)
    (h : ∀ symbol ∈ symbols, symbol.isImport = false) :
    redeclarations name symbols =
      if 2 ≤ symbols.length ∧ ∃ symbol ∈ symbols, symbol.role ≠ .declared .var then
        symbols.map fun symbol ↦ (symbol, .redeclaration name)
      else [] := by
  have himports : symbols.filter Symbol.isImport = [] := by simpa using h
  have hdeclared : symbols.filter Symbol.isVariable = symbols := by
    simpa [Symbol.isVariable] using h
  have hscoped : symbols.any Symbol.isBlockScoped = true ↔
      ∃ symbol ∈ symbols, symbol.role ≠ .declared .var := by
    rw [List.any_eq_true]
    exact exists_congr fun symbol ↦ and_congr_right fun hsymbol ↦
      Symbol.isBlockScoped_iff (h symbol hsymbol)
  unfold redeclarations
  simp only [himports, hdeclared, hscoped]
  by_cases hlength : 2 ≤ symbols.length
  · have hnot : ¬ symbols.length ≤ 1 := by omega
    simp [hlength, hnot]
  · rw [if_pos (by omega), if_neg fun h ↦ hlength h.1]

/-- With an import among several declarations, something is reported. -/
theorem redeclarations_ne_nil_of_import (name : String) (hlength : 2 ≤ symbols.length)
    (h : ∃ symbol ∈ symbols, symbol.isImport = true) : redeclarations name symbols ≠ [] := by
  obtain ⟨imported, hmem, himport⟩ := h
  have himports : symbols.filter Symbol.isImport ≠ [] :=
    List.ne_nil_of_mem (List.mem_filter.2 ⟨hmem, himport⟩)
  unfold redeclarations
  rw [if_neg (by omega)]
  by_cases hdeclared : symbols.filter Symbol.isVariable = []
  · have hall : symbols.filter Symbol.isImport = symbols := by
      simpa [Symbol.isVariable] using hdeclared
    have hsymbols : symbols ≠ [] := List.ne_nil_of_mem hmem
    have hmore : 1 < symbols.length := hlength
    simp [hdeclared, hall, hsymbols, hmore]
  · rw [if_pos (by simp [List.isEmpty_eq_false_iff.2 himports,
      List.isEmpty_eq_false_iff.2 hdeclared])]
    exact mt List.map_eq_nil_iff.1 himports

/-- A name is reported if there are several declarations of it, not all of them by `var`. -/
theorem redeclarations_ne_nil_iff (name : String) : redeclarations name symbols ≠ [] ↔
    2 ≤ symbols.length ∧ ∃ symbol ∈ symbols, symbol.role ≠ .declared .var := by
  by_cases h : ∃ symbol ∈ symbols, symbol.isImport = true
  · have hother : ∃ symbol ∈ symbols, symbol.role ≠ .declared .var := by
      obtain ⟨symbol, hmem, himport⟩ := h
      refine ⟨symbol, hmem, fun hrole ↦ ?_⟩
      rw [Symbol.isImport, hrole] at himport
      cases himport
    constructor
    · refine fun hne ↦ ⟨?_, hother⟩
      by_contra hlength
      exact hne (if_pos (by omega))
    · exact fun hseveral ↦ redeclarations_ne_nil_of_import name hseveral.1 h
  · have hnone : ∀ symbol ∈ symbols, symbol.isImport = false := by simpa using h
    rw [redeclarations_of_no_import name hnone]
    split_ifs with hseveral
    · have hne : symbols ≠ [] := by
        rintro rfl
        simp at hseveral
      simp [hne, hseveral]
    · simp [hseveral]

end Scope

/-! ## What is reported at a symbol -/

def Symbol.InSource (units : List SourceUnit) (symbol : Symbol) : Prop :=
  ∃ unit, units[symbol.unit]? = some unit ∧ unit.isLibrary = false

instance (units : List SourceUnit) (symbol : Symbol) : Decidable (symbol.InSource units) :=
  decidable_of_iff (units[symbol.unit]?.any fun unit ↦ !unit.isLibrary)
    (by simp [Symbol.InSource, Option.any_eq_true])

theorem Scope.mem_reports_ofSymbols {symbols : List (String × Symbol)} {entry : ℕ × Finding} :
    entry ∈ (ofSymbols symbols).reports ↔ ∃ name symbol problem,
      (symbol, problem) ∈ redeclarations name (named name symbols) ∧
        entry = (symbol.unit, ⟨problem, symbol.span⟩) := by
  constructor
  · intro hentry
    obtain ⟨⟨name, found⟩, hnamed, hentry⟩ := List.mem_flatMap.1 hentry
    obtain ⟨⟨symbol, problem⟩, hreported, rfl⟩ := List.mem_map.1 hentry
    have hfound : named name symbols = found := by
      rw [← getD_get?_ofSymbols, OrderedMap.mem_entries_iff.1 hnamed, Option.getD_some]
    exact ⟨name, symbol, problem, hfound ▸ hreported, rfl⟩
  · rintro ⟨name, symbol, problem, hreported, rfl⟩
    have hfound := getD_get?_ofSymbols symbols name
    cases hget : (ofSymbols symbols).get? name with
    | none =>
      rw [← hfound, hget] at hreported
      cases hreported
    | some found =>
      rw [← hfound, hget] at hreported
      exact List.mem_flatMap.2 ⟨(name, found), OrderedMap.mem_entries_iff.2 hget,
        List.mem_map.2 ⟨(symbol, problem), hreported, rfl⟩⟩

namespace Checking

variable {units : List SourceUnit}

theorem mem_redeclarations_iff {entry : ℕ × Finding} :
    entry ∈ Scope.allRedeclarations (resolvedScopes units).all ↔ ∃ place name symbol problem,
      (symbol, problem) ∈ Scope.redeclarations name (Scopes.symbols units place name) ∧
        entry = (symbol.unit, ⟨problem, symbol.span⟩) := by
  rw [redeclarations_resolvedScopes, List.mem_flatMap]
  constructor
  · rintro ⟨place, -, hentry⟩
    exact ⟨place, Scope.mem_reports_ofSymbols.1 hentry⟩
  · rintro ⟨place, hentry⟩
    refine ⟨place, ?_, Scope.mem_reports_ofSymbols.2 hentry⟩
    obtain ⟨name, symbol, problem, hreported, -⟩ := hentry
    have hmem := Scope.mem_named.1 (Scope.mem_of_mem_redeclarations hreported)
    obtain ⟨unit, index, hunit, rfl, -⟩ := Scopes.mem_declarations.1 hmem
    refine Scopes.mem_places.2 ?_
    unfold SourceUnit.home
    split
    · rename_i hmodule
      exact .inr ⟨unit, index, hunit, hmodule, rfl⟩
    · exact .inl rfl

/-- Of what is reported about a unit, the part about redeclared names comes from the scopes. -/
theorem filter_reported_perm {unit : SourceUnit} {index : ℕ} (hunit : units[index]? = some unit)
    (hsource : unit.isLibrary = false) (settings : Assignment) (dialect : Dialect) :
    ((reported units settings dialect index).filter Finding.isRedeclaration).Perm
      (findingsOf index (Scope.allRedeclarations (resolvedScopes units).all)) := by
  obtain ⟨imports, statements, hfound, himports, hstatements⟩ :=
    exists_found_stateAfter units settings dialect (rounds units)
  have hnone {found : List (ℕ × Finding)} {pass : CheckPass} (hpass : pass ≠ .redeclarations)
      (h : ∀ entry ∈ found, entry.2.problem.pass? = some pass) :
      (findingsOf index found).filter Finding.isRedeclaration = [] := by
    refine filter_findingsOf_eq_nil fun entry hentry ↦ Bool.eq_false_iff.2 fun hredeclared ↦ ?_
    rw [Finding.isRedeclaration_iff, h entry hentry] at hredeclared
    exact hpass (Option.some.inj hredeclared)
  have hall : (findingsOf index (Scope.allRedeclarations (resolvedScopes units).all)).filter
      Finding.isRedeclaration =
        findingsOf index (Scope.allRedeclarations (resolvedScopes units).all) :=
    List.filter_eq_self.2 fun finding hfinding ↦ Finding.isRedeclaration_iff.2
      (Scope.pass?_of_mem_allRedeclarations _ (mem_findingsOf.1 hfinding))
  have hreported : (reported units settings dialect index).Perm
      (findingsOf index (stateAfter units settings dialect (rounds units)).found) := by
    rw [reported, hunit, Option.all_some, hsource, if_neg Bool.false_ne_true]
    exact List.mergeSort_perm _ _
  refine (hreported.filter _).trans (.of_eq ?_)
  rw [hfound, findingsOf_append, findingsOf_append, List.filter_append, List.filter_append,
    hnone (by decide) himports, hnone (by decide) hstatements, hall]
  simp

def redeclarationsAt (units : List SourceUnit) (settings : Assignment) (dialect : Dialect)
    (symbol : Symbol) : List Finding :=
  (reported units settings dialect symbol.unit).filter fun finding ↦
    finding.isRedeclaration && finding.span = symbol.span

theorem isSource_of_mem_reported {settings : Assignment} {dialect : Dialect} {index : ℕ}
    {finding : Finding} (h : finding ∈ reported units settings dialect index) :
    ∃ unit, units[index]? = some unit ∧ unit.isLibrary = false := by
  rw [reported] at h
  split at h
  · cases h
  · rename_i hall
    simpa [Option.all_eq_true] using hall

/-- What is reported about a source is at one of its symbols, as the verdict on its name says. -/
theorem exists_symbol_of_mem_reported {settings : Assignment} {dialect : Dialect} {index : ℕ}
    {finding : Finding} (h : finding ∈ reported units settings dialect index)
    (hredeclared : finding.isRedeclaration = true) :
    ∃ place name, ∃ symbol ∈ Scopes.symbols units place name, symbol.InSource units ∧
      symbol.unit = index ∧ symbol.span = finding.span ∧
      (symbol, finding.problem) ∈
        Scope.redeclarations name (Scopes.symbols units place name) := by
  obtain ⟨unit, hunit, hlibrary⟩ := isSource_of_mem_reported h
  have hmem := (filter_reported_perm hunit hlibrary settings dialect).mem_iff.1
    (List.mem_filter.2 ⟨h, hredeclared⟩)
  obtain ⟨place, name, symbol, problem, hreported, heq⟩ :=
    mem_redeclarations_iff.1 (mem_findingsOf.1 hmem)
  obtain ⟨rfl, rfl⟩ := Prod.mk.inj heq
  exact ⟨place, name, symbol, Scope.mem_of_mem_redeclarations hreported, ⟨unit, hunit, hlibrary⟩,
    rfl, rfl, hreported⟩

/-- Whatever the verdict on a name says about a symbol in a source is reported there. -/
theorem mem_redeclarationsAt_of_mem {place : Option ℕ} {name : String} {symbol : Symbol}
    {problem : Problem} (hsource : symbol.InSource units)
    (h : (symbol, problem) ∈ Scope.redeclarations name (Scopes.symbols units place name))
    (settings : Assignment) (dialect : Dialect) :
    ⟨problem, symbol.span⟩ ∈ redeclarationsAt units settings dialect symbol := by
  obtain ⟨unit, hunit, hlibrary⟩ := hsource
  have hmem := (filter_reported_perm hunit hlibrary settings dialect).mem_iff.2
    (mem_findingsOf.2 (mem_redeclarations_iff.2 ⟨place, name, symbol, problem, h, rfl⟩))
  obtain ⟨hreported, hredeclared⟩ := List.mem_filter.1 hmem
  exact List.mem_filter.2 ⟨hreported, by simp [hredeclared]⟩

theorem nodup_map_span_findingsOf {found : List (ℕ × Finding)}
    (h : (found.map fun entry ↦ (entry.1, entry.2.span)).Nodup) (index : ℕ) :
    ((findingsOf index found).map Finding.span).Nodup := by
  refine List.pairwise_map.2 ((List.pairwise_map.1 h).filterMap _ ?_)
  rintro ⟨owner, finding⟩ ⟨owner', finding'⟩ hne first hfirst second hsecond hspan
  dsimp only at hfirst hsecond
  split at hfirst
  · split at hsecond
    · obtain rfl := Option.some.inj hfirst
      obtain rfl := Option.some.inj hsecond
      exact hne (Prod.ext (by omega) hspan)
    · cases hsecond
  · cases hfirst

/-- Nothing is reported twice at one symbol. -/
theorem length_redeclarationsAt_le_one (h : ∀ unit ∈ units, unit.file.Parsed)
    (settings : Assignment) (dialect : Dialect) (symbol : Symbol) :
    (redeclarationsAt units settings dialect symbol).length ≤ 1 := by
  cases hlist : redeclarationsAt units settings dialect symbol with
  | nil => exact Nat.zero_le 1
  | cons finding rest =>
    have hmem : finding ∈ redeclarationsAt units settings dialect symbol :=
      hlist ▸ List.mem_cons_self ..
    obtain ⟨unit, hunit, hlibrary⟩ := isSource_of_mem_reported (List.mem_filter.1 hmem).1
    have hperm := filter_reported_perm hunit hlibrary settings dialect
    have hnodup := nodup_map_span_findingsOf (nodup_sites_redeclarations h) symbol.unit
    rw [← (hperm.map Finding.span).nodup_iff, List.nodup_iff_count_le_one] at hnodup
    have hcount := hnodup symbol.span
    rw [List.count, List.countP_map, List.countP_filter, List.countP_eq_length_filter] at hcount
    rw [← hlist, redeclarationsAt]
    refine le_of_eq_of_le (congrArg List.length (List.filter_congr fun other _ ↦ ?_)) hcount
    rw [Bool.eq_iff_iff]
    simp [and_comm]

/-- What is reported at a symbol is the verdict on its name. -/
theorem mem_of_mem_redeclarationsAt (h : ∀ unit ∈ units, unit.file.Parsed) {settings : Assignment}
    {dialect : Dialect} {place : Option ℕ} {name : String} {symbol : Symbol} {finding : Finding}
    (hsymbol : symbol ∈ Scopes.symbols units place name)
    (hfinding : finding ∈ redeclarationsAt units settings dialect symbol) :
    (symbol, finding.problem) ∈
      Scope.redeclarations name (Scopes.symbols units place name) := by
  obtain ⟨hreported, hredeclared⟩ := List.mem_filter.1 hfinding
  obtain ⟨hredeclared, hspan⟩ := Bool.and_eq_true_iff.1 hredeclared
  obtain ⟨place', name', symbol', hsymbol', -, hunit, hspan', hverdict⟩ :=
    exists_symbol_of_mem_reported hreported hredeclared
  have hsite : symbol'.site = symbol.site :=
    Prod.ext hunit (hspan'.trans (of_decide_eq_true hspan))
  obtain ⟨rfl, rfl, rfl⟩ := Scopes.eq_of_site_eq h hsymbol' hsymbol hsite
  exact hverdict

/-! ## Exactness -/

/-- What a check reports about names that are declared more than once, at which of the symbols. -/
structure ReportsRedeclared (units : List SourceUnit) (settings : Assignment) (dialect : Dialect) :
    Prop where
  /-- A name with a symbol in a source is reported in a source if its scope holds several symbols of
  it and not all of them are declared by `var`. -/
  reported_iff : ∀ place name,
    (∃ symbol ∈ Scopes.symbols units place name, symbol.InSource units) →
      ((∃ symbol ∈ Scopes.symbols units place name, symbol.InSource units ∧
          redeclarationsAt units settings dialect symbol ≠ []) ↔
        2 ≤ (Scopes.symbols units place name).length ∧
          ∃ symbol ∈ Scopes.symbols units place name, symbol.role ≠ .declared .var)
  once : ∀ place name, ∀ symbol ∈ Scopes.symbols units place name,
    (redeclarationsAt units settings dialect symbol).length ≤ 1
  /-- Without an import, all symbols of a name that are in sources are reported or none is. -/
  all_or_none : ∀ place name,
    (∀ symbol ∈ Scopes.symbols units place name, symbol.isImport = false) →
      (∀ symbol ∈ Scopes.symbols units place name, symbol.InSource units →
        ∃ finding, redeclarationsAt units settings dialect symbol = [finding] ∧
          finding.problem.code = 2451) ∨
      ∀ symbol ∈ Scopes.symbols units place name, symbol.InSource units →
        redeclarationsAt units settings dialect symbol = []
  /-- Whatever is reported as declared more than once is a symbol in a source. -/
  nowhere_else : ∀ index, ∀ finding ∈ reported units settings dialect index,
    finding.isRedeclaration = true → ∃ place name,
      ∃ symbol ∈ Scopes.symbols units place name, symbol.InSource units ∧
        symbol.unit = index ∧ symbol.span = finding.span

theorem isModule_of_isImport {unit : SourceUnit} {index : ℕ} {entry : String × Symbol}
    (h : entry ∈ unit.symbols index) (himport : entry.2.isImport = true) :
    unit.isModule = true := by
  obtain ⟨⟨statement, number⟩, hnumbered, hsymbol⟩ := List.mem_flatMap.1 h
  have hstatement : statement ∈ unit.file.statements := List.fst_mem_of_mem_zipIdx hnumbered
  cases statement with
  | importNames decl => exact List.any_eq_true.2 ⟨_, hstatement, rfl⟩
  | expr value span => cases hsymbol
  | var decl =>
    obtain rfl := List.mem_singleton.1 hsymbol
    cases himport

/-- Only modules import, so that all symbols beside an import are in its unit. -/
theorem inSource_of_isImport {place : Option ℕ} {name : String} {symbol other imported : Symbol}
    (hsymbol : symbol ∈ Scopes.symbols units place name) (hsource : symbol.InSource units)
    (hother : other ∈ Scopes.symbols units place name)
    (himported : imported ∈ Scopes.symbols units place name)
    (himport : imported.isImport = true) : other.InSource units := by
  obtain ⟨unit, index, hunit, rfl, hown⟩ :=
    Scopes.mem_declarations.1 (Scope.mem_named.1 himported)
  have hmodule := isModule_of_isImport hown himport
  have hunits {found : Symbol} (hfound : found ∈ Scopes.symbols units (unit.home index) name) :
      found.unit = index := by
    rw [SourceUnit.home, if_pos hmodule, Scopes.symbols, Scope.mem_named,
      Scopes.declarations_some hunit hmodule] at hfound
    exact SourceUnit.unit_eq_of_mem_symbols _ hfound
  rw [Symbol.InSource, hunits hother, ← hunits hsymbol]
  exact hsource

theorem reported_iff (h : ∀ unit ∈ units, unit.file.Parsed) (settings : Assignment)
    (dialect : Dialect) {place : Option ℕ} {name : String}
    (hown : ∃ symbol ∈ Scopes.symbols units place name, symbol.InSource units) :
    (∃ symbol ∈ Scopes.symbols units place name, symbol.InSource units ∧
      redeclarationsAt units settings dialect symbol ≠ []) ↔
    2 ≤ (Scopes.symbols units place name).length ∧
      ∃ symbol ∈ Scopes.symbols units place name, symbol.role ≠ .declared .var := by
  rw [← Scope.redeclarations_ne_nil_iff name]
  constructor
  · rintro ⟨symbol, hsymbol, -, hne⟩
    obtain ⟨finding, hfinding⟩ := List.exists_mem_of_ne_nil _ hne
    exact List.ne_nil_of_mem (mem_of_mem_redeclarationsAt h hsymbol hfinding)
  · intro hne
    have hreport {symbol : Symbol} {problem : Problem} (hsource : symbol.InSource units)
        (hverdict : (symbol, problem) ∈
          Scope.redeclarations name (Scopes.symbols units place name)) :
        ∃ symbol ∈ Scopes.symbols units place name, symbol.InSource units ∧
          redeclarationsAt units settings dialect symbol ≠ [] :=
      ⟨symbol, Scope.mem_of_mem_redeclarations hverdict, hsource,
        List.ne_nil_of_mem (mem_redeclarationsAt_of_mem hsource hverdict settings dialect)⟩
    obtain ⟨own, hmem, hsource⟩ := hown
    by_cases himport : ∃ symbol ∈ Scopes.symbols units place name, symbol.isImport = true
    · obtain ⟨imported, himported, himport⟩ := himport
      obtain ⟨⟨symbol, problem⟩, hverdict⟩ := List.exists_mem_of_ne_nil _ hne
      have hsymbol := Scope.mem_of_mem_redeclarations hverdict
      exact hreport (inSource_of_isImport hmem hsource hsymbol himported himport) hverdict
    · have hnone : ∀ symbol ∈ Scopes.symbols units place name, symbol.isImport = false := by
        simpa using himport
      have hverdicts := Scope.redeclarations_of_no_import name hnone
      split_ifs at hverdicts
      · have hverdict : (own, .redeclaration name) ∈
            Scope.redeclarations name (Scopes.symbols units place name) := by
          rw [hverdicts]
          exact List.mem_map.2 ⟨own, hmem, rfl⟩
        exact hreport hsource hverdict
      · exact absurd hverdicts hne

theorem all_or_none (h : ∀ unit ∈ units, unit.file.Parsed) (settings : Assignment)
    (dialect : Dialect) {place : Option ℕ} {name : String}
    (hnone : ∀ symbol ∈ Scopes.symbols units place name, symbol.isImport = false) :
    (∀ symbol ∈ Scopes.symbols units place name, symbol.InSource units →
      ∃ finding, redeclarationsAt units settings dialect symbol = [finding] ∧
        finding.problem.code = 2451) ∨
    ∀ symbol ∈ Scopes.symbols units place name, symbol.InSource units →
      redeclarationsAt units settings dialect symbol = [] := by
  have hverdicts := Scope.redeclarations_of_no_import name hnone
  split_ifs at hverdicts
  · refine .inl fun symbol hsymbol hsource ↦ ⟨⟨.redeclaration name, symbol.span⟩, ?_, rfl⟩
    have hverdict : (symbol, .redeclaration name) ∈
        Scope.redeclarations name (Scopes.symbols units place name) := by
      rw [hverdicts]
      exact List.mem_map.2 ⟨symbol, hsymbol, rfl⟩
    have hmem := mem_redeclarationsAt_of_mem hsource hverdict settings dialect
    have hlength := length_redeclarationsAt_le_one h settings dialect symbol
    obtain ⟨finding, hfinding⟩ := List.length_eq_one_iff.1
      (Nat.le_antisymm hlength (List.length_pos_of_mem hmem))
    rw [hfinding, List.mem_singleton] at hmem
    rw [hfinding, hmem]
  · refine .inr fun symbol hsymbol _ ↦ List.eq_nil_iff_forall_not_mem.2 fun finding hfinding ↦ ?_
    have hverdict := mem_of_mem_redeclarationsAt h hsymbol hfinding
    rw [hverdicts] at hverdict
    cases hverdict

/-- A check of files that were read reports the names that are declared more than once in a scope,
unless all declarations are by `var`, and it reports each symbol at most once. -/
theorem reportsRedeclared_check (h : ∀ unit ∈ units, unit.file.Parsed) (settings : Assignment)
    (dialect : Dialect) :
    (check units settings dialect).diagnostics = units.zipIdx.flatMap (fun (unit, index) ↦
      (reported units settings dialect index).map fun finding ↦
        finding.toDiagnostic unit.file.name) ∧
    ReportsRedeclared units settings dialect := by
  refine ⟨diagnostics_check units settings dialect,
    fun place name ↦ reported_iff h settings dialect,
    fun place name symbol _ ↦ length_redeclarationsAt_le_one h settings dialect symbol,
    fun place name ↦ all_or_none h settings dialect, ?_⟩
  intro index finding hfinding hredeclared
  obtain ⟨place, name, symbol, hsymbol, hsource, hunit, hspan, -⟩ :=
    exists_symbol_of_mem_reported hfinding hredeclared
  exact ⟨place, name, symbol, hsymbol, hsource, hunit, hspan⟩

/-- A name of the library that a script declares anew, and one that a module imports twice. -/
theorem reportsRedeclared_check_of_library_name :
    let units : List SourceUnit :=
      [⟨.parse "lib.d.ts" "declare var x: number;" 1, "/lib.d.ts", true, []⟩,
        ⟨.parse "a.ts" "let x = 1;" 1, "/project/a.ts", false, []⟩,
        ⟨.parse "b.ts" "import \x7b y, y \x7d from \"./c\";" 1, "/project/b.ts", false, []⟩]
    (∃ symbol ∈ Scopes.symbols units none "x", symbol.InSource units ∧
      redeclarationsAt units .empty ⟨3⟩ symbol ≠ []) ∧
    (∃ symbol ∈ Scopes.symbols units (some 2) "y", symbol.InSource units ∧
      redeclarationsAt units .empty ⟨3⟩ symbol ≠ []) := by
  intro units
  have hparsed : ∀ unit ∈ units, unit.file.Parsed := by
    simp [units, SourceFile.parsed_parse]
  obtain ⟨-, hexact⟩ := reportsRedeclared_check hparsed .empty ⟨3⟩
  exact ⟨(hexact.reported_iff none "x" (by decide +kernel)).2 (by decide +kernel),
    (hexact.reported_iff (some 2) "y" (by decide +kernel)).2 (by decide +kernel)⟩

end Checking

end VersionSweep
