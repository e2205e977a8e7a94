import Mathlib.Data.List.Flatten
import Mathlib.Data.List.Perm.Subperm
import VersionSweep.Proofs.Language.NameOrder
import VersionSweep.Proofs.Typing.ScopeReports

/-!
# Sites of declarations

Each declaration goes to one scope, and the scope holds it once, under its name.  In a file that was
read no two declarations stand at one place.  So what is reported about the scopes is reported at
different places, and a place belongs to one scope and to one name.
-/

namespace VersionSweep

namespace Scope

theorem redeclarations_sublist (name : String) (symbols : List Symbol) :
    ((redeclarations name symbols).map Prod.fst).Sublist symbols := by
  unfold redeclarations
  dsimp only
  split_ifs <;> simp [Function.comp_def]

/-- Giving a key some more puts that at the end of what the map holds. -/
theorem flatMap_setEntry_perm {α : Type} (key : String) (more : List α)
    (entries : List (String × List α)) :
    ((OrderedMap.setEntry key ((OrderedMap.valueOf? key entries).getD [] ++ more)
      entries).flatMap Prod.snd).Perm (entries.flatMap Prod.snd ++ more) := by
  induction entries with
  | nil => simp [OrderedMap.setEntry, OrderedMap.valueOf?]
  | cons entry rest ih =>
    rw [OrderedMap.setEntry, OrderedMap.valueOf?]
    split_ifs with hkey
    · simp only [List.flatMap_cons, Option.getD_some, List.append_assoc]
      exact List.perm_append_comm.append_left entry.2
    · simp only [List.flatMap_cons, List.append_assoc]
      exact ih.append_left entry.2

/-- A scope holds the symbols that are declared in it, each once. -/
theorem flatMap_entries_ofSymbols_perm (symbols : List (String × Symbol)) :
    ((ofSymbols symbols).entries.flatMap Prod.snd).Perm (symbols.map Prod.snd) := by
  suffices h : ∀ scope : Scope,
      ((symbols.foldl (fun scope entry ↦ scope.declare entry.1 entry.2) scope).entries.flatMap
        Prod.snd).Perm (scope.entries.flatMap Prod.snd ++ symbols.map Prod.snd) from h .empty
  induction symbols with
  | nil => simp
  | cons entry rest ih =>
    intro scope
    have hdeclare : ((scope.declare entry.1 entry.2).entries.flatMap Prod.snd).Perm
        (scope.entries.flatMap Prod.snd ++ [entry.2]) :=
      flatMap_setEntry_perm entry.1 [entry.2] scope.entries
    rw [List.foldl_cons, List.map_cons, List.append_cons]
    exact (ih _).trans (hdeclare.append_right _)

end Scope

def Symbol.site (symbol : Symbol) : ℕ × Span :=
  (symbol.unit, symbol.span)

/-- What is reported about a scope is at places of symbols that are declared in it. -/
theorem Scope.sites_reports_subperm (symbols : List (String × Symbol)) :
    ((ofSymbols symbols).reports.map fun entry ↦ (entry.1, entry.2.span)).Subperm
      (symbols.map fun entry ↦ entry.2.site) := by
  have hreports : ((ofSymbols symbols).reports.map fun entry ↦ (entry.1, entry.2.span)) =
      ((ofSymbols symbols).entries.flatMap fun entry ↦
        (redeclarations entry.1 entry.2).map Prod.fst).map Symbol.site := by
    simp only [reports, List.map_flatMap, List.map_map]
    rfl
  have hsymbols : (symbols.map fun entry ↦ entry.2.site) =
      (symbols.map Prod.snd).map Symbol.site := by
    rw [List.map_map]
    rfl
  rw [hreports, hsymbols]
  have hsublist : ((ofSymbols symbols).entries.flatMap fun entry ↦
      (redeclarations entry.1 entry.2).map Prod.fst).Sublist
        ((ofSymbols symbols).entries.flatMap Prod.snd) :=
    List.Sublist.flatMap_right _ fun entry _ ↦ redeclarations_sublist entry.1 entry.2
  exact (hsublist.map _).subperm.trans
    ((flatMap_entries_ofSymbols_perm symbols).map _).subperm

theorem Statement.map_span_symbols (unit number : ℕ) (statement : Statement) :
    ((statement.symbols unit number).map fun entry ↦ entry.2.span) =
      statement.declared.map Ident.span := by
  cases statement <;> simp [symbols, declared, Function.comp_def]

section Parsed

variable {units : List SourceUnit}

theorem SourceUnit.nodup_sites_symbols {unit : SourceUnit} (h : unit.file.Parsed) (index : ℕ) :
    ((unit.symbols index).map fun entry ↦ entry.2.site).Nodup := by
  have hspans : ((unit.symbols index).map fun entry ↦ entry.2.span) =
      (unit.file.statements.flatMap Statement.declared).map Ident.span := by
    rw [SourceUnit.symbols, List.map_flatMap, List.map_flatMap, ← List.zipIdx_map_fst 0
      unit.file.statements, List.flatMap_map]
    exact List.flatMap_congr fun numbered _ ↦
      Statement.map_span_symbols index numbered.2 numbered.1
  have hordered : (((unit.symbols index).map fun entry ↦ entry.2.span)).Pairwise
      fun first second ↦ first.start < second.start := by
    rw [hspans, List.pairwise_map]
    exact h.pairwise_declared
  refine List.Nodup.of_map Prod.snd ?_
  rw [List.map_map]
  refine hordered.imp ?_
  rintro first _ hlt rfl
  exact Nat.lt_irrefl _ hlt

theorem Scopes.nodup_sites_declarations (h : ∀ unit ∈ units, unit.file.Parsed)
    (place : Option ℕ) : ((declarations units place).map fun entry ↦ entry.2.site).Nodup := by
  rw [declarations, List.map_flatMap, List.nodup_flatMap]
  constructor
  · rintro ⟨unit, index⟩ hentry
    dsimp only
    split
    · exact SourceUnit.nodup_sites_symbols (h unit (List.fst_mem_of_mem_zipIdx hentry)) index
    · exact .nil
  · have hindices : (units.zipIdx.map Prod.snd).Nodup := List.nodup_zipIdx_map_snd units
    refine (List.pairwise_map.1 hindices).imp ?_
    intro entry other hne site hsite hother
    have howner {entry : SourceUnit × ℕ}
        (hsite : site ∈ (if entry.1.home entry.2 = place then entry.1.symbols entry.2
          else []).map fun entry ↦ entry.2.site) : site.1 = entry.2 := by
      split at hsite
      · obtain ⟨named, hnamed, rfl⟩ := List.mem_map.1 hsite
        exact SourceUnit.unit_eq_of_mem_symbols named hnamed
      · cases hsite
    exact hne ((howner hsite).symm.trans (howner hother))

/-- Redeclared names are reported scope by scope. -/
theorem Checking.redeclarations_resolvedScopes (units : List SourceUnit) :
    Scope.allRedeclarations (resolvedScopes units).all =
      (Scopes.places units).flatMap fun place ↦
        (Scope.ofSymbols (Scopes.declarations units place)).reports := by
  rw [Scope.allRedeclarations_eq_flatMap, List.flatMap_def, map_reports_resolvedScopes,
    Scopes.all_ofUnits, List.map_map, List.flatMap_def]
  rfl

/-- No two reports about names that are declared more than once are at one place. -/
theorem Checking.nodup_sites_redeclarations (h : ∀ unit ∈ units, unit.file.Parsed) :
    ((Scope.allRedeclarations (resolvedScopes units).all).map fun entry ↦
      (entry.1, entry.2.span)).Nodup := by
  rw [redeclarations_resolvedScopes, List.map_flatMap, List.nodup_flatMap]
  refine ⟨fun place _ ↦ ?_, (Scopes.nodup_places units).imp fun {place other} hne ↦ ?_⟩
  · obtain ⟨sites, hperm, hsub⟩ :=
      Scope.sites_reports_subperm (Scopes.declarations units place)
    exact hperm.nodup_iff.1 ((Scopes.nodup_sites_declarations h place).sublist hsub)
  · intro site hsite hother
    obtain ⟨entry, hentry, rfl⟩ := List.mem_map.1 hsite
    obtain ⟨entry', hentry', heq⟩ := List.mem_map.1 hother
    obtain ⟨unit, hunit, rfl⟩ := Scopes.home_of_mem_reports entry hentry
    obtain ⟨unit', hunit', rfl⟩ := Scopes.home_of_mem_reports entry' hentry'
    have howner : entry'.1 = entry.1 := (Prod.mk.inj heq).1
    rw [howner] at hunit' hne
    obtain rfl := Option.some.inj (hunit.symm.trans hunit')
    exact hne rfl

def Scopes.symbols (units : List SourceUnit) (place : Option ℕ) (name : String) : List Symbol :=
  Scope.named name (declarations units place)

/-- A symbol of a file that was read is in one scope and under one name only. -/
theorem Scopes.eq_of_site_eq (h : ∀ unit ∈ units, unit.file.Parsed) {place place' : Option ℕ}
    {name name' : String} {symbol symbol' : Symbol}
    (hsymbol : symbol ∈ Scopes.symbols units place name)
    (hsymbol' : symbol' ∈ Scopes.symbols units place' name') (hsite : symbol.site = symbol'.site) :
    place = place' ∧ name = name' ∧ symbol = symbol' := by
  have hmem := Scope.mem_named.1 hsymbol
  have hmem' := Scope.mem_named.1 hsymbol'
  have hplace : place = place' := by
    obtain ⟨unit, index, hunit, rfl, hown⟩ := Scopes.mem_declarations.1 hmem
    obtain ⟨unit', index', hunit', rfl, hown'⟩ := Scopes.mem_declarations.1 hmem'
    have hindex : symbol.unit = index := SourceUnit.unit_eq_of_mem_symbols _ hown
    have hindex' : symbol'.unit = index' := SourceUnit.unit_eq_of_mem_symbols _ hown'
    obtain rfl : index = index' := by
      rw [← hindex, ← hindex']
      exact congrArg Prod.fst hsite
    obtain rfl := Option.some.inj (hunit.symm.trans hunit')
    rfl
  subst hplace
  have heq := List.inj_on_of_nodup_map (Scopes.nodup_sites_declarations h place) hmem hmem' hsite
  exact ⟨rfl, Prod.mk.inj heq⟩

end Parsed

end VersionSweep
