import VersionSweep.Proofs.Typing.ScopeReports

/-!
# The order in which scopes are visited

What is reported about a scope is about units that have nothing to do with any other scope: a module
has its own, and all other units share the global one.  So whatever the order in which the scopes
are visited, each unit gets the same findings in the same order, and the check comes to the same.
-/

namespace VersionSweep

/-- Where only one of some lists has anything in it, their order has no part in what they make. -/
theorem flatten_eq_of_perm {α : Type*} {lists others : List (List α)} (h : lists.Perm others)
    (halone : lists.Pairwise fun first second ↦ first = [] ∨ second = []) :
    lists.flatten = others.flatten := by
  induction h with
  | nil => rfl
  | cons first _ ih =>
    rw [List.flatten_cons, List.flatten_cons, ih (List.pairwise_cons.1 halone).2]
  | swap first second rest =>
    have hpair := (List.pairwise_cons.1 halone).1 first (List.mem_cons_self ..)
    simp only [List.flatten_cons]
    obtain rfl | rfl := hpair <;> simp
  | trans h _ ih ih' =>
    have hsymm {first second : List α} : first = [] ∨ second = [] → second = [] ∨ first = [] :=
      Or.symm
    rw [ih halone, ih' ((h.pairwise_iff hsymm).1 halone)]

namespace Checking

theorem findingsOf_allRedeclarations (unit : ℕ) (scopes : List Scope) :
    findingsOf unit (Scope.allRedeclarations scopes) =
      ((scopes.map Scope.reports).map (findingsOf unit)).flatten := by
  rw [Scope.allRedeclarations_eq_flatMap, findingsOf, List.filterMap_flatMap, List.map_map]
  rfl

/-- Only one scope has anything to report about a unit. -/
theorem pairwise_findingsOf_reports (units : List SourceUnit) (unit : ℕ) :
    (((Scopes.ofUnits units).all.map Scope.reports).map (findingsOf unit)).Pairwise
      fun first second ↦ first = [] ∨ second = [] := by
  rw [Scopes.all_ofUnits, List.map_map, List.map_map, List.pairwise_map]
  refine (Scopes.nodup_places units).imp fun {place other} hne ↦ ?_
  by_contra hboth
  obtain ⟨hfirst, hsecond⟩ := not_or.1 hboth
  have hhome (place : Option ℕ)
      (h : findingsOf unit (Scope.ofSymbols (Scopes.declarations units place)).reports ≠ []) :
      ∃ found, units[unit]? = some found ∧ found.home unit = place := by
    obtain ⟨finding, hfinding⟩ := List.exists_mem_of_ne_nil _ h
    exact Scopes.home_of_mem_reports _ (mem_findingsOf.1 hfinding)
  obtain ⟨found, hfound, rfl⟩ := hhome place hfirst
  obtain ⟨found', hfound', rfl⟩ := hhome other hsecond
  obtain rfl := Option.some.inj (hfound.symm.trans hfound')
  exact hne rfl

/-- The order of a visit has no part in what is reported about a unit. -/
theorem findingsOf_allRedeclarations_of_perm {units : List SourceUnit} {visited : List Scope}
    (h : visited.Perm (resolvedScopes units).all) (unit : ℕ) :
    findingsOf unit (Scope.allRedeclarations visited) =
      findingsOf unit (Scope.allRedeclarations (resolvedScopes units).all) := by
  rw [findingsOf_allRedeclarations, findingsOf_allRedeclarations]
  refine (flatten_eq_of_perm ((h.map _).map _).symm ?_).symm
  rw [map_reports_resolvedScopes]
  exact pairwise_findingsOf_reports units unit

/-- Whether two states are the same but for the order of findings in different units. -/
structure Agrees (state other : Checking) : Prop where
  scopes : state.scopes = other.scopes
  found : ∀ unit, findingsOf unit state.found = findingsOf unit other.found
  types : state.types = other.types

variable {state other : Checking}

theorem Agrees.report (h : Agrees state other) (unit : ℕ) (findings : List Finding) :
    Agrees (state.report unit findings) (other.report unit findings) := by
  refine ⟨h.scopes, fun owner ↦ ?_, h.types⟩
  rw [Checking.report, Checking.report, findingsOf_append, findingsOf_append, h.found owner]

theorem Agrees.checkRound (h : Agrees state other) (dialect : Dialect) (implicitAny : Bool)
    (round : Round) : Agrees (checkRound dialect implicitAny state round)
      (checkRound dialect implicitAny other round) := by
  obtain ⟨index, statement, number⟩ := round
  cases statement with
  | importNames decl => exact h
  | expr value span =>
    simp only [Checking.checkRound, checkStatement, h.scopes]
    exact h.report index _
  | var decl =>
    simp only [Checking.checkRound, checkStatement, checkVar, h.scopes, h.types]
    exact ⟨rfl, (h.report index _).found, rfl⟩

theorem Agrees.diagnostics (h : Agrees state other) (units : List SourceUnit) :
    state.diagnostics units = other.diagnostics units := by
  refine List.flatMap_congr fun entry _ ↦ ?_
  have hfound := h.found entry.2
  rw [findingsOf, findingsOf] at hfound
  dsimp only
  rw [hfound]

/-- A check comes to the same, its diagnostics in the same order, in whatever order it visits the
scopes for names that are declared more than once. -/
theorem checkVisiting_eq_check {visit : Scopes → List Scope}
    (h : ∀ scopes, (visit scopes).Perm scopes.all) (units : List SourceUnit)
    (settings : Assignment) (dialect : Dialect) :
    checkVisiting visit units settings dialect = check units settings dialect := by
  have hresolved : Agrees
      { (⟨.ofUnits units, [], []⟩ : Checking).resolveImports units with
        found := ((⟨.ofUnits units, [], []⟩ : Checking).resolveImports units).found ++
          Scope.allRedeclarations (visit (resolvedScopes units)) }
      (prepared units) := by
    refine ⟨rfl, fun unit ↦ ?_, rfl⟩
    rw [prepared, findingsOf_append, findingsOf_append,
      findingsOf_allRedeclarations_of_perm (h _)]
  have hchecked := List.foldl_rel (l := rounds units) hresolved fun round _ _ _ h ↦
    h.checkRound dialect (reportsImplicitAny settings) round
  rw [check_eq_stateAfter, checkVisiting]
  simp only [checkUnits_eq_foldl]
  exact congrArg₂ Checked.mk (hchecked.diagnostics units) hchecked.types

/-- Two modules and a script declare a name twice each, and the last scope is visited first. -/
theorem checkVisiting_eq_check_reversed :
    let units : List SourceUnit :=
      [⟨.parse "a.ts" "export let x = 1;\nlet x = 2;" 1, "/project/a.ts", false, []⟩,
        ⟨.parse "b.ts" "export let y = 1;\nvar y = 2;" 1, "/project/b.ts", false, []⟩,
        ⟨.parse "c.ts" "const z = 1;\nlet z = 2;" 1, "/project/c.ts", false, []⟩]
    let visit (scopes : Scopes) : List Scope := scopes.all.reverse
    checkVisiting visit units .empty ⟨3⟩ = check units .empty ⟨3⟩ ∧
    (Scope.allRedeclarations (visit (resolvedScopes units))).map Prod.fst = [1, 1, 0, 0, 2, 2] ∧
    (Scope.allRedeclarations (resolvedScopes units).all).map Prod.fst = [2, 2, 0, 0, 1, 1] := by
  intro units visit
  have hperm (scopes : Scopes) : (visit scopes).Perm scopes.all := List.reverse_perm _
  exact ⟨checkVisiting_eq_check hperm units .empty ⟨3⟩, by decide +kernel, by decide +kernel⟩

end Checking

end VersionSweep
