import Mathlib.Data.List.Basic
import VersionSweep.Proofs.Typing.CheckRun
import VersionSweep.Proofs.Typing.FindingPlaces
import VersionSweep.Proofs.Typing.ScopeContents

/-!
# Modules that nothing imports

A module writes only into its own scope and to its own findings.  So the check of units together
with one more module, which none of them imports, goes through the same states as the check of the
units alone, but for what belongs to that module.  The invariant is `Checking.Extends`, kept by the
steps of the units, which both checks take, and by those of the module, which only one takes.
-/

namespace VersionSweep

theorem SourceUnit.mem_imports_of_import? {unit : SourceUnit} {statement target : ℕ}
    (h : unit.import? statement = some target) : (statement, target) ∈ unit.imports := by
  obtain ⟨before, after, himports, -⟩ := List.lookup_eq_some_iff.1 h
  rw [himports]
  exact List.mem_append_right _ (List.mem_cons_self ..)

theorem SourceUnit.unit_eq_of_mem_symbols {index : ℕ} {unit : SourceUnit} :
    ∀ entry ∈ unit.symbols index, entry.2.unit = index := by
  intro entry hentry
  obtain ⟨⟨statement, number⟩, -, hsymbol⟩ := List.mem_flatMap.1 hentry
  cases statement with
  | var decl =>
    obtain rfl := List.mem_singleton.1 hsymbol
    rfl
  | importNames decl =>
    obtain ⟨name, -, rfl⟩ := List.mem_map.1 hsymbol
    rfl
  | expr value span => cases hsymbol

def Scope.Of (unit : ℕ) (scope : Scope) : Prop :=
  scope.Every fun symbol ↦ symbol.unit = unit

theorem Scope.Of.setType {unit : ℕ} {scope : Scope} (h : scope.Of unit) (owner statement : ℕ)
    (name : String) (type : BasicType) : (scope.setType owner statement name type).Of unit :=
  Every.setType h (fun _ _ hunit ↦ hunit) owner statement name type

/-- What is reported about a scope belongs to the unit that its symbols come from. -/
theorem Scope.fst_eq_of_mem_allRedeclarations {unit : ℕ} {scope : Scope} (h : scope.Of unit) :
    ∀ entry ∈ allRedeclarations [scope], entry.1 = unit := by
  intro entry hentry
  rw [allRedeclarations, List.flatMap_singleton] at hentry
  obtain ⟨named, hnamed, hreport⟩ := List.mem_flatMap.1 hentry
  obtain ⟨reported, hreported, rfl⟩ := List.mem_map.1 hreport
  exact h named hnamed _ (mem_of_mem_redeclarations hreported)

theorem Scope.allRedeclarations_append (scopes others : List Scope) :
    allRedeclarations (scopes ++ others) = allRedeclarations scopes ++ allRedeclarations others :=
  List.flatMap_append

namespace Scopes

def withModule (number : ℕ) (own : Scope) (scopes : Scopes) : Scopes :=
  { scopes with modules := scopes.modules ++ [(number, own)] }

variable {scopes : Scopes} {number unit : ℕ} {own : Scope}

theorem module?_withModule_of_ne (h : unit ≠ number) :
    (scopes.withModule number own).module? unit = scopes.module? unit := by
  have hne : (unit == number) = false := beq_eq_false_iff_ne.2 h
  rw [module?, withModule, List.lookup_append, List.lookup_cons, hne]
  exact Option.or_none

theorem type?_withModule_of_ne (h : unit ≠ number) :
    (scopes.withModule number own).type? unit = scopes.type? unit := by
  funext name
  rw [type?, type?, symbol?, symbol?, module?_withModule_of_ne h]
  rfl

theorem export?_withModule_of_ne (h : unit ≠ number) (name : String) :
    (scopes.withModule number own).export? unit name = scopes.export? unit name := by
  rw [export?, export?, module?_withModule_of_ne h]

theorem setType_withModule_of_ne (h : unit ≠ number) (statement : ℕ) (name : String)
    (type : BasicType) :
    (scopes.withModule number own).setType unit statement name type =
      (scopes.setType unit statement name type).withModule number own := by
  rw [setType, setType, module?_withModule_of_ne h]
  split
  · rw [withModule, List.map_append, List.map_singleton]
    dsimp only
    rw [if_neg h.symm]
    rfl
  · rfl

theorem setType_withModule_self (h : scopes.module? number = none) (statement : ℕ) (name : String)
    (type : BasicType) :
    (scopes.withModule number own).setType number statement name type =
      scopes.withModule number (own.setType number statement name type) := by
  have hsome : ((scopes.withModule number own).module? number).isSome = true := by
    rw [module?, withModule, List.lookup_append, List.lookup_cons, beq_self_eq_true]
    simp
  have hothers : (scopes.modules.map fun entry ↦ (entry.1,
      if entry.1 = number then entry.2.setType number statement name type else entry.2)) =
        scopes.modules := by
    refine (List.map_congr_left fun entry hentry ↦ ?_).trans (List.map_id _)
    have hne : ¬ entry.1 = number := fun heq ↦
      bne_iff_ne.1 (List.lookup_eq_none_iff.1 h entry hentry) heq.symm
    rw [if_neg hne]
    rfl
  rw [setType, if_pos hsome, withModule, List.map_append]
  refine congrArg (Scopes.mk scopes.global) (congrArg₂ (· ++ ·) hothers ?_)
  rw [List.map_singleton]
  dsimp only
  rw [if_pos rfl]

theorem module?_setType_eq_none (h : scopes.module? number = none) (unit statement : ℕ)
    (name : String) (type : BasicType) :
    (scopes.setType unit statement name type).module? number = none := by
  rw [setType]
  split
  · have hlookup := lookup_map_modules scopes.modules (fun index scope ↦
      if index = unit then scope.setType unit statement name type else scope) number
    rw [module?, hlookup, ← module?, h]
    rfl
  · exact h

theorem ofUnits_concat {units : List SourceUnit} {added : SourceUnit}
    (h : added.isModule = true) :
    ofUnits (units ++ [added]) =
      (ofUnits units).withModule units.length (.ofSymbols (added.symbols units.length)) := by
  simp [ofUnits, withModule, List.zipIdx_append, h]

theorem module?_ofUnits_length (units : List SourceUnit) :
    (ofUnits units).module? units.length = none := by
  apply List.lookup_eq_none_iff.2
  intro entry hentry
  obtain ⟨⟨unit, index⟩, hunit, hmodule⟩ := List.mem_filterMap.1 hentry
  have hlt : index < 0 + units.length := List.snd_lt_add_of_mem_zipIdx hunit
  dsimp only at hmodule
  split at hmodule
  · obtain rfl := Option.some.inj hmodule
    exact bne_iff_ne.2 (by omega)
  · cases hmodule

end Scopes

namespace Checking

def findingsOf (unit : ℕ) (found : List (ℕ × Finding)) : List Finding :=
  found.filterMap fun (owner, finding) ↦ if owner = unit then some finding else none

theorem findingsOf_append (unit : ℕ) (found more : List (ℕ × Finding)) :
    findingsOf unit (found ++ more) = findingsOf unit found ++ findingsOf unit more :=
  List.filterMap_append

theorem findingsOf_eq_nil {unit number : ℕ} (h : unit ≠ number) {found : List (ℕ × Finding)}
    (hfound : ∀ entry ∈ found, entry.1 = number) : findingsOf unit found = [] := by
  apply List.filterMap_eq_nil_iff.2
  intro entry hentry
  exact if_neg fun heq ↦ h (heq.symm.trans (hfound entry hentry))

/-- Whether a state is another one with a module of the given number added: its scope, findings in
it, and types of its declarations. -/
structure Extends (number : ℕ) (state extended : Checking) : Prop where
  scopes : ∃ own : Scope, own.Of number ∧
    extended.scopes = state.scopes.withModule number own
  fresh : state.scopes.module? number = none
  found : ∀ unit, unit ≠ number → findingsOf unit extended.found = findingsOf unit state.found
  types : ∀ key : ℕ × ℕ, key.1 ≠ number →
    extended.types.lookup key = state.types.lookup key

variable {number unit statement : ℕ} {state extended : Checking}

section Steps

theorem Extends.report (h : Extends number state extended) (unit : ℕ) (findings : List Finding) :
    Extends number (state.report unit findings) (extended.report unit findings) := by
  refine ⟨h.scopes, h.fresh, fun other hother ↦ ?_, h.types⟩
  rw [Checking.report, Checking.report, findingsOf_append, findingsOf_append, h.found other hother]

theorem Extends.reportOwn (h : Extends number state extended) (findings : List Finding) :
    Extends number state (extended.report number findings) := by
  refine ⟨h.scopes, h.fresh, fun other hother ↦ ?_, h.types⟩
  have hnone : findingsOf other (findings.map fun finding ↦ (number, finding)) = [] := by
    apply findingsOf_eq_nil hother
    intro entry hentry
    obtain ⟨finding, -, rfl⟩ := List.mem_map.1 hentry
    rfl
  rw [Checking.report, findingsOf_append, hnone, List.append_nil, h.found other hother]

theorem Extends.setType (h : Extends number state extended) (hunit : unit ≠ number)
    (statement : ℕ) (name : String) (type : BasicType) :
    Extends number { state with scopes := state.scopes.setType unit statement name type }
      { extended with scopes := extended.scopes.setType unit statement name type } := by
  obtain ⟨own, hown, hscopes⟩ := h.scopes
  refine ⟨⟨own, hown, ?_⟩, Scopes.module?_setType_eq_none h.fresh unit statement name type,
    h.found, h.types⟩
  dsimp only
  rw [hscopes, Scopes.setType_withModule_of_ne hunit]

theorem Extends.setTypeOwn (h : Extends number state extended) (statement : ℕ) (name : String)
    (type : BasicType) :
    Extends number state
      { extended with scopes := extended.scopes.setType number statement name type } := by
  obtain ⟨own, hown, hscopes⟩ := h.scopes
  refine ⟨⟨_, hown.setType number statement name type, ?_⟩, h.fresh, h.found, h.types⟩
  dsimp only
  rw [hscopes, Scopes.setType_withModule_self h.fresh]

theorem Extends.addType (h : Extends number state extended) (key : ℕ × ℕ) (type : BasicType) :
    Extends number { state with types := state.types ++ [(key, type)] }
      { extended with types := extended.types ++ [(key, type)] } := by
  refine ⟨h.scopes, h.fresh, h.found, fun other hother ↦ ?_⟩
  dsimp only
  rw [List.lookup_append, List.lookup_append, h.types other hother]

theorem Extends.addTypeOwn (h : Extends number state extended) (statement : ℕ)
    (type : BasicType) :
    Extends number state
      { extended with types := extended.types ++ [((number, statement), type)] } := by
  refine ⟨h.scopes, h.fresh, h.found, fun other hother ↦ ?_⟩
  have hne : (other == (number, statement)) = false :=
    beq_eq_false_iff_ne.2 fun heq ↦ hother (congrArg Prod.fst heq)
  dsimp only
  rw [List.lookup_append, List.lookup_cons, hne, h.types other hother]
  exact Option.or_none

theorem Extends.type?_eq (h : Extends number state extended) (hunit : unit ≠ number) :
    extended.scopes.type? unit = state.scopes.type? unit := by
  obtain ⟨own, -, hscopes⟩ := h.scopes
  rw [hscopes, Scopes.type?_withModule_of_ne hunit]

theorem Extends.export?_eq (h : Extends number state extended) (hunit : unit ≠ number)
    (name : String) : extended.scopes.export? unit name = state.scopes.export? unit name := by
  obtain ⟨own, -, hscopes⟩ := h.scopes
  rw [hscopes, Scopes.export?_withModule_of_ne hunit]

/-- A pass over the units is a pass over the units and the module, if each step for a unit keeps up
and the step for the module does not matter. -/
theorem Extends.foldl_concat {units : List SourceUnit}
    (h : Extends units.length state extended)
    {step extendedStep : Checking → SourceUnit × ℕ → Checking} {added : SourceUnit}
    (hstep : ∀ unit ∈ units, ∀ index, index ≠ units.length → ∀ state extended,
      Extends units.length state extended →
      Extends units.length (step state (unit, index)) (extendedStep extended (unit, index)))
    (hown : ∀ state extended, Extends units.length state extended →
      Extends units.length state (extendedStep extended (added, units.length))) :
    Extends units.length (units.zipIdx.foldl step state)
      ((units ++ [added]).zipIdx.foldl extendedStep extended) := by
  rw [List.zipIdx_append, Nat.zero_add, List.zipIdx_singleton, List.foldl_append, List.foldl_cons,
    List.foldl_nil]
  refine hown _ _ (List.foldl_rel h fun entry hentry state extended h ↦ ?_)
  have hlt := List.snd_lt_add_of_mem_zipIdx hentry
  exact hstep entry.1 (List.fst_mem_of_mem_zipIdx hentry) entry.2 (by omega) state extended h

end Steps

section Imports

variable {units : List SourceUnit} {importer added : SourceUnit}

theorem Extends.importName (h : Extends number state extended) (hunit : unit ≠ number)
    {target : ℕ} (htarget : target ≠ number) (statement : ℕ) (specifier : String) (name : Ident) :
    Extends number (state.importName unit statement target specifier name)
      (extended.importName unit statement target specifier name) := by
  unfold Checking.importName
  rw [h.export?_eq htarget]
  split
  · exact h.setType hunit statement name.text _
  · exact h.report unit _

theorem Extends.importNameOwn (h : Extends number state extended) (statement target : ℕ)
    (specifier : String) (name : Ident) :
    Extends number state (extended.importName number statement target specifier name) := by
  unfold Checking.importName
  split
  · exact h.setTypeOwn statement name.text _
  · exact h.reportOwn _

/-- An import of a unit comes to the same unless it leads to the new module. -/
theorem Extends.resolveImport (h : Extends units.length state extended)
    (hunit : unit ≠ units.length)
    (himporter : ∀ statement, importer.import? statement ≠ some units.length)
    (numbered : Statement × ℕ) :
    Extends units.length (resolveImport units unit importer state numbered)
      (resolveImport (units ++ [added]) unit importer extended numbered) := by
  obtain ⟨statement, number⟩ := numbered
  cases statement with
  | var decl => exact h
  | expr value span => exact h
  | importNames decl =>
    unfold Checking.resolveImport
    dsimp only
    cases htarget : importer.import? number with
    | none => exact h.report unit _
    | some target =>
      have hother : target ≠ units.length := fun heq ↦ himporter number (heq ▸ htarget)
      have hsame : (units ++ [added])[target]? = units[target]? := by
        grind
      dsimp only
      rw [hsame]
      split
      · exact h
      · split
        · exact List.foldl_rel h fun name _ state extended h ↦
            h.importName hunit hother number decl.specifier name
        · exact h.report unit _

theorem Extends.resolveImportOwn (h : Extends number state extended) (all : List SourceUnit)
    (importer : SourceUnit) (numbered : Statement × ℕ) :
    Extends number state (Checking.resolveImport all number importer extended numbered) := by
  obtain ⟨statement, place⟩ := numbered
  cases statement with
  | var decl => exact h
  | expr value span => exact h
  | importNames decl =>
    unfold Checking.resolveImport
    dsimp only
    split
    · exact h.reportOwn _
    · split
      · exact h
      · split
        · exact List.foldlRecOn _ _ h fun extended h name _ ↦ h.importNameOwn place _ _ name
        · exact h.reportOwn _

theorem Extends.resolveImports (h : Extends units.length state extended)
    (himports : ∀ unit ∈ units, ∀ statement, unit.import? statement ≠ some units.length)
    (added : SourceUnit) :
    Extends units.length (state.resolveImports units)
      (extended.resolveImports (units ++ [added])) := by
  refine h.foldl_concat (fun unit hunit index hindex state extended h ↦ ?_)
    fun state extended h ↦ ?_
  · exact List.foldl_rel h fun numbered _ state extended h ↦
      h.resolveImport hindex (himports unit hunit) numbered
  · exact List.foldlRecOn _ _ h fun extended h numbered _ ↦ h.resolveImportOwn _ added numbered

end Imports

section Checks

theorem Extends.redeclared (h : Extends number state extended) :
    Extends number
      { state with found := state.found ++ Scope.allRedeclarations state.scopes.all }
      { extended with found := extended.found ++ Scope.allRedeclarations extended.scopes.all } := by
  obtain ⟨own, hown, hscopes⟩ := h.scopes
  refine ⟨⟨own, hown, hscopes⟩, h.fresh, fun unit hunit ↦ ?_, h.types⟩
  have hall : extended.scopes.all = state.scopes.all ++ [own] := by
    rw [hscopes, Scopes.all, Scopes.withModule, List.map_append]
    rfl
  have hnone := findingsOf_eq_nil hunit (Scope.fst_eq_of_mem_allRedeclarations hown)
  dsimp only
  rw [hall, Scope.allRedeclarations_append, findingsOf_append, findingsOf_append,
    findingsOf_append, hnone, List.append_nil, h.found unit hunit]

theorem Extends.checkVar (h : Extends number state extended) (hunit : unit ≠ number)
    (dialect : Dialect) (implicitAny : Bool) (statement : ℕ) (decl : VarDecl) :
    Extends number (state.checkVar dialect implicitAny unit statement decl)
      (extended.checkVar dialect implicitAny unit statement decl) := by
  unfold Checking.checkVar
  rw [h.type?_eq hunit]
  exact ((h.report unit _).setType hunit statement decl.name.text _).addType (unit, statement) _

theorem Extends.checkVarOwn (h : Extends number state extended) (dialect : Dialect)
    (implicitAny : Bool) (statement : ℕ) (decl : VarDecl) :
    Extends number state (extended.checkVar dialect implicitAny number statement decl) :=
  ((h.reportOwn _).setTypeOwn statement decl.name.text _).addTypeOwn statement _

theorem Extends.checkStatement (h : Extends number state extended) (hunit : unit ≠ number)
    (dialect : Dialect) (implicitAny : Bool) (numbered : Statement × ℕ) :
    Extends number (state.checkStatement dialect implicitAny unit numbered)
      (extended.checkStatement dialect implicitAny unit numbered) := by
  obtain ⟨statement, place⟩ := numbered
  cases statement with
  | importNames decl => exact h
  | var decl => exact h.checkVar hunit dialect implicitAny place decl
  | expr value span =>
    unfold Checking.checkStatement
    dsimp only
    rw [h.type?_eq hunit]
    exact h.report unit _

theorem Extends.checkStatementOwn (h : Extends number state extended) (dialect : Dialect)
    (implicitAny : Bool) (numbered : Statement × ℕ) :
    Extends number state (extended.checkStatement dialect implicitAny number numbered) := by
  obtain ⟨statement, place⟩ := numbered
  cases statement with
  | importNames decl => exact h
  | var decl => exact h.checkVarOwn dialect implicitAny place decl
  | expr value span => exact h.reportOwn _

theorem Extends.checkUnits {units : List SourceUnit} (h : Extends units.length state extended)
    (dialect : Dialect) (implicitAny : Bool) (added : SourceUnit) :
    Extends units.length (state.checkUnits dialect implicitAny units)
      (extended.checkUnits dialect implicitAny (units ++ [added])) := by
  refine h.foldl_concat (fun unit hunit index hindex state extended h ↦ ?_)
    fun state extended h ↦ ?_
  · dsimp only
    split
    · exact h
    · exact List.foldl_rel h fun numbered _ state extended h ↦
        h.checkStatement hindex dialect implicitAny numbered
  · dsimp only
    split
    · exact h
    · exact List.foldlRecOn _ _ h fun extended h numbered _ ↦
        h.checkStatementOwn dialect implicitAny numbered

/-- The diagnostics of the units are the same, and those of the module follow. -/
theorem Extends.diagnostics {units : List SourceUnit} (h : Extends units.length state extended)
    (added : SourceUnit) :
    ∃ findings : List Finding, extended.diagnostics (units ++ [added]) =
      state.diagnostics units ++ findings.map fun finding ↦
        finding.toDiagnostic added.file.name := by
  have hsame : ∀ entry ∈ units.zipIdx,
      Finding.sort (findingsOf entry.2 extended.found) =
        Finding.sort (findingsOf entry.2 state.found) := by
    intro entry hentry
    have hlt := List.snd_lt_add_of_mem_zipIdx hentry
    rw [h.found entry.2 (by omega)]
  refine ⟨if added.isLibrary then [] else Finding.sort (findingsOf units.length extended.found), ?_⟩
  rw [Checking.diagnostics, Checking.diagnostics, List.zipIdx_append, Nat.zero_add,
    List.zipIdx_singleton, List.flatMap_append, List.flatMap_singleton]
  congr 1
  · refine List.flatMap_congr fun entry hentry ↦ ?_
    have hentry := hsame entry hentry
    rw [findingsOf, findingsOf] at hentry
    dsimp only
    rw [hentry]
  · dsimp only
    split <;> rfl

theorem extends_ofUnits {units : List SourceUnit} {added : SourceUnit}
    (h : added.isModule = true) :
    Extends units.length ⟨.ofUnits units, [], []⟩ ⟨.ofUnits (units ++ [added]), [], []⟩ := by
  have hown : (Scope.ofSymbols (added.symbols units.length)).Of units.length :=
    Scope.every_ofSymbols SourceUnit.unit_eq_of_mem_symbols
  exact ⟨⟨_, hown, Scopes.ofUnits_concat h⟩, Scopes.module?_ofUnits_length units,
    fun _ _ ↦ rfl, fun _ _ ↦ rfl⟩

/-- A module that no unit imports adds its own diagnostics to a check, behind the others, and
changes no type of a declaration in another unit. -/
theorem check_concat_of_not_imported {units : List SourceUnit} {added : SourceUnit}
    (hmodule : added.isModule = true)
    (himports : ∀ unit ∈ units, ∀ statement, unit.import? statement ≠ some units.length)
    (settings : Assignment) (dialect : Dialect) :
    (∃ findings : List Finding, (check (units ++ [added]) settings dialect).diagnostics =
      (check units settings dialect).diagnostics ++ findings.map fun finding ↦
        finding.toDiagnostic added.file.name) ∧
    ∀ index < units.length, ∀ statement,
      (check (units ++ [added]) settings dialect).types.lookup (index, statement) =
        (check units settings dialect).types.lookup (index, statement) := by
  have hresolved := (extends_ofUnits hmodule).resolveImports himports added
  have hchecked := hresolved.redeclared.checkUnits dialect (reportsImplicitAny settings) added
  refine ⟨hchecked.diagnostics added, fun index hindex statement ↦ ?_⟩
  exact hchecked.types (index, statement) (Nat.ne_of_lt hindex)

/-- The module declares a global name again, with a value that does not fit. -/
theorem check_concat_of_not_imported_shadowed_name :
    let units : List SourceUnit :=
      [⟨.parse "a.ts" "let x = 1;\nx();" 1, "/project/a.ts", false, []⟩,
        ⟨.parse "b.ts" "import \x7b y \x7d from \"./c\";\nlet z = y;" 1, "/project/b.ts", false,
          [(0, 2)]⟩,
        ⟨.parse "c.ts" "export let y: string = x;" 1, "/project/c.ts", false, []⟩]
    let added : SourceUnit :=
      ⟨.parse "m.ts" "export let x: boolean = 1;" 1, "/project/m.ts", false, []⟩
    (∃ findings : List Finding, (check (units ++ [added]) .empty ⟨3⟩).diagnostics =
      (check units .empty ⟨3⟩).diagnostics ++ findings.map fun finding ↦
        finding.toDiagnostic "m.ts") ∧
    (check (units ++ [added]) .empty ⟨3⟩).types.lookup (0, 0) = some .number ∧
    (check units .empty ⟨3⟩).diagnostics.length = 2 ∧
    (check (units ++ [added]) .empty ⟨3⟩).diagnostics.length = 3 := by
  intro units added
  have hmodule : added.isModule = true := by decide +kernel
  have himports : ∀ unit ∈ units, ∀ statement, unit.import? statement ≠ some units.length := by
    have hentries : ∀ unit ∈ units, ∀ entry ∈ unit.imports, entry.2 ≠ units.length := by
      decide +kernel
    exact fun unit hunit statement hfound ↦
      hentries unit hunit _ (SourceUnit.mem_imports_of_import? hfound) rfl
  obtain ⟨hdiagnostics, htypes⟩ := check_concat_of_not_imported hmodule himports .empty ⟨3⟩
  refine ⟨hdiagnostics, ?_, by decide +kernel, by decide +kernel⟩
  rw [htypes 0 (by decide) 0]
  decide +kernel

end Checks

end Checking

end VersionSweep
