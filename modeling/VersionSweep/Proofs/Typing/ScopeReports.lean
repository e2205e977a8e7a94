import Mathlib.Data.List.Perm.Basic
import VersionSweep.Proofs.Typing.CheckPasses

/-!
# What is reported about scopes

Names that are declared more than once are looked for scope by scope.  What is found in a scope does
not hang on the types of its symbols, so it is the same after the imports are resolved as before.
-/

namespace VersionSweep

namespace OrderedMap

variable {α : Type}

/-- Changing the value of a key changes the one entry that has the key. -/
theorem setEntry_eq_map {key : String} {value : α} {entries : List (String × α)}
    (hnodup : (entries.map Prod.fst).Nodup) (hvalue : valueOf? key entries = some value)
    (f : α → α) : setEntry key (f value) entries =
      entries.map fun entry ↦ (entry.1, if entry.1 = key then f entry.2 else entry.2) := by
  induction entries with
  | nil => cases hvalue
  | cons entry rest ih =>
    obtain ⟨hfresh, hrest⟩ := List.nodup_cons.1 hnodup
    rw [setEntry, List.map_cons]
    rw [valueOf?] at hvalue
    by_cases hkey : entry.1 = key
    · rw [if_pos hkey] at hvalue ⊢
      obtain rfl := Option.some.inj hvalue
      have hothers : (rest.map fun entry ↦
          (entry.1, if entry.1 = key then f entry.2 else entry.2)) = rest := by
        refine (List.map_congr_left fun other hother ↦ ?_).trans (List.map_id rest)
        have hne : ¬ other.1 = key := fun h ↦
          hfresh (hkey ▸ h ▸ List.mem_map_of_mem (f := Prod.fst) hother)
        rw [if_neg hne]
        rfl
      rw [hothers, if_pos hkey, hkey]
    · rw [if_neg hkey] at hvalue ⊢
      rw [ih hrest hvalue, if_neg hkey]

end OrderedMap

namespace Symbol

variable (unit statement : ℕ) (type : BasicType) (symbol : Symbol)

@[simp] theorem unit_retyped : (symbol.retyped unit statement type).unit = symbol.unit := by
  unfold retyped
  split <;> rfl

@[simp] theorem span_retyped : (symbol.retyped unit statement type).span = symbol.span := by
  unfold retyped
  split <;> rfl

@[simp] theorem role_retyped : (symbol.retyped unit statement type).role = symbol.role := by
  unfold retyped
  split <;> rfl

@[simp] theorem isImport_retyped :
    (symbol.retyped unit statement type).isImport = symbol.isImport := by
  simp [isImport]

@[simp] theorem isVariable_retyped :
    (symbol.retyped unit statement type).isVariable = symbol.isVariable := by
  simp [isVariable]

@[simp] theorem isBlockScoped_retyped :
    (symbol.retyped unit statement type).isBlockScoped = symbol.isBlockScoped := by
  simp [isBlockScoped]

end Symbol

namespace Scope

def reports (scope : Scope) : List (ℕ × Finding) :=
  scope.entries.flatMap fun (name, symbols) ↦
    (redeclarations name symbols).map fun (symbol, problem) ↦
      (symbol.unit, ⟨problem, symbol.span⟩)

theorem allRedeclarations_eq_flatMap (scopes : List Scope) :
    allRedeclarations scopes = scopes.flatMap reports :=
  rfl

theorem redeclarations_map_retyped (unit statement : ℕ) (type : BasicType) (name : String)
    (symbols : List Symbol) :
    redeclarations name (symbols.map (Symbol.retyped unit statement type)) =
      (redeclarations name symbols).map fun entry ↦
        (entry.1.retyped unit statement type, entry.2) := by
  have himports : (symbols.map (Symbol.retyped unit statement type)).filter Symbol.isImport =
      (symbols.filter Symbol.isImport).map (Symbol.retyped unit statement type) := by
    simp [List.filter_map, Function.comp_def]
  have hdeclared : (symbols.map (Symbol.retyped unit statement type)).filter Symbol.isVariable =
      (symbols.filter Symbol.isVariable).map (Symbol.retyped unit statement type) := by
    simp [List.filter_map, Function.comp_def]
  unfold redeclarations
  simp only [himports, hdeclared, List.length_map, List.isEmpty_map, List.any_map,
    Function.comp_def, Symbol.isBlockScoped_retyped]
  split_ifs <;> simp

theorem entries_setType (scope : Scope) (unit statement : ℕ) (name : String) (type : BasicType) :
    (scope.setType unit statement name type).entries = scope.entries.map fun entry ↦
      (entry.1, if entry.1 = name then entry.2.map (Symbol.retyped unit statement type)
        else entry.2) := by
  unfold setType
  split
  · rename_i hnone
    refine ((List.map_congr_left fun entry hentry ↦ ?_).trans (List.map_id _)).symm
    have hne : ¬ entry.1 = name := by
      rintro rfl
      rw [OrderedMap.mem_entries_iff.1 hentry] at hnone
      cases hnone
    rw [if_neg hne]
    rfl
  · rename_i symbols hsymbols
    exact OrderedMap.setEntry_eq_map scope.nodup hsymbols
      (List.map (Symbol.retyped unit statement type))

/-- Types have no part in what is reported about a scope. -/
theorem reports_setType (scope : Scope) (unit statement : ℕ) (name : String) (type : BasicType) :
    (scope.setType unit statement name type).reports = scope.reports := by
  rw [reports, entries_setType, List.flatMap_map, reports]
  refine List.flatMap_congr fun entry _ ↦ ?_
  dsimp only
  split
  · rw [redeclarations_map_retyped, List.map_map]
    simp [Function.comp_def]
  · rfl

end Scope

namespace Scopes

theorem map_reports_setType (scopes : Scopes) (unit statement : ℕ) (name : String)
    (type : BasicType) : (scopes.setType unit statement name type).all.map Scope.reports =
      scopes.all.map Scope.reports := by
  unfold setType
  split
  · rw [all, all, List.map_cons, List.map_cons, List.map_map, List.map_map, List.map_map]
    congr 1
    refine List.map_congr_left fun entry _ ↦ ?_
    dsimp only [Function.comp_apply]
    split
    · exact Scope.reports_setType entry.2 unit statement name type
    · rfl
  · rw [all, all, List.map_cons, List.map_cons, Scope.reports_setType]

end Scopes

namespace Checking

/-- The scopes after the imports are resolved, about which the check reports. -/
abbrev resolvedScopes (units : List SourceUnit) : Scopes :=
  ((⟨.ofUnits units, [], []⟩ : Checking).resolveImports units).scopes

/-- Resolving imports changes nothing about what is reported, scope by scope. -/
theorem map_reports_resolvedScopes (units : List SourceUnit) :
    (resolvedScopes units).all.map Scope.reports =
      (Scopes.ofUnits units).all.map Scope.reports := by
  refine scopes_resolveImports (P := fun scopes ↦
    scopes.all.map Scope.reports = (Scopes.ofUnits units).all.map Scope.reports) ?_ rfl units
  intro scopes unit statement name type h
  rw [Scopes.map_reports_setType, h]

end Checking

/-! ## The scopes of units -/

/-- A list that is made entry by entry, where only one entry has something to give. -/
theorem flatMap_zipIdx_eq {α β : Type*} {items : List α} {item : α} {index : ℕ}
    (hitem : items[index]? = some item) {f : α × ℕ → List β}
    (hothers : ∀ entry ∈ items.zipIdx, entry.2 ≠ index → f entry = []) :
    items.zipIdx.flatMap f = f (item, index) := by
  have hmem : (item, index) ∈ items.zipIdx := List.mem_zipIdx_iff_getElem?.2 hitem
  obtain ⟨before, after, hsplit⟩ := List.append_of_mem hmem
  have hnodup : (items.zipIdx.map Prod.snd).Nodup := List.nodup_zipIdx_map_snd items
  rw [hsplit] at hothers hnodup ⊢
  rw [List.map_append, List.map_cons, List.nodup_middle, List.nodup_cons, ← List.map_append]
    at hnodup
  have hnone : ∀ entry ∈ before ++ after, f entry = [] := by
    intro entry hentry
    refine hothers entry (by grind) fun hindex ↦ hnodup.1 ?_
    exact List.mem_map.2 ⟨entry, hentry, hindex⟩
  rw [List.flatMap_append, List.flatMap_cons,
    List.flatMap_eq_nil_iff.2 fun entry h ↦ hnone entry (List.mem_append_left _ h),
    List.flatMap_eq_nil_iff.2 fun entry h ↦ hnone entry (List.mem_append_right _ h)]
  simp

/-- The scope that the declarations of a unit go to: its own if it is a module, the global one
otherwise. -/
def SourceUnit.home (index : ℕ) (unit : SourceUnit) : Option ℕ :=
  if unit.isModule then some index else none

namespace Scopes

def declarations (units : List SourceUnit) (place : Option ℕ) : List (String × Symbol) :=
  units.zipIdx.flatMap fun (unit, index) ↦
    if unit.home index = place then unit.symbols index else []

def places (units : List SourceUnit) : List (Option ℕ) :=
  none :: units.zipIdx.filterMap fun (unit, index) ↦
    if unit.isModule then some (some index) else none

variable {units : List SourceUnit} {place : Option ℕ}

theorem mem_declarations {entry : String × Symbol} :
    entry ∈ declarations units place ↔ ∃ (unit : SourceUnit) (index : ℕ),
      units[index]? = some unit ∧ unit.home index = place ∧ entry ∈ unit.symbols index := by
  simp only [declarations, List.mem_flatMap, Prod.exists, List.mem_zipIdx_iff_getElem?]
  constructor
  · rintro ⟨unit, index, hunit, hentry⟩
    split at hentry
    · rename_i hhome
      exact ⟨unit, index, hunit, hhome, hentry⟩
    · cases hentry
  · rintro ⟨unit, index, hunit, hhome, hentry⟩
    exact ⟨unit, index, hunit, by rwa [if_pos hhome]⟩

theorem mem_places : place ∈ places units ↔ place = none ∨
    ∃ unit index, units[index]? = some unit ∧ unit.isModule = true ∧ place = some index := by
  simp only [places, List.mem_cons, List.mem_filterMap, Prod.exists, List.mem_zipIdx_iff_getElem?]
  grind

theorem nodup_places (units : List SourceUnit) : (places units).Nodup := by
  refine List.nodup_cons.2 ⟨by simp, ?_⟩
  have hindices : (units.zipIdx.map Prod.snd).Nodup := List.nodup_zipIdx_map_snd units
  refine List.Pairwise.filterMap _ ?_ (List.pairwise_map.1 hindices)
  grind

theorem declarations_some {unit : SourceUnit} {index : ℕ} (hunit : units[index]? = some unit)
    (hmodule : unit.isModule = true) :
    declarations units (some index) = unit.symbols index := by
  rw [declarations, flatMap_zipIdx_eq hunit]
  · dsimp only
    rw [SourceUnit.home, if_pos hmodule, if_pos rfl]
  · intro entry _ hindex
    refine if_neg fun hhome ↦ hindex ?_
    unfold SourceUnit.home at hhome
    split at hhome
    · exact Option.some.inj hhome
    · cases hhome

theorem global_ofUnits (units : List SourceUnit) :
    (ofUnits units).global = .ofSymbols (declarations units none) := by
  refine congrArg Scope.ofSymbols (List.flatMap_congr fun entry _ ↦ ?_)
  dsimp only
  rw [SourceUnit.home]
  split <;> simp

/-- The scopes that units make hold what is declared in them. -/
theorem all_ofUnits (units : List SourceUnit) :
    (ofUnits units).all = (places units).map fun place ↦ .ofSymbols (declarations units place) := by
  have hmodules : ((units.zipIdx.filterMap fun entry ↦
      if entry.1.isModule then some (entry.2, Scope.ofSymbols (entry.1.symbols entry.2))
        else none).map Prod.snd) =
      (units.zipIdx.filterMap fun entry ↦
        if entry.1.isModule then some (some entry.2) else none).map fun place ↦
          .ofSymbols (declarations units place) := by
    rw [List.map_filterMap, List.map_filterMap]
    refine List.filterMap_congr fun entry hentry ↦ ?_
    have hunit := List.mem_zipIdx_iff_getElem?.1 hentry
    split
    · rename_i hmodule
      rw [Option.map_some, Option.map_some, declarations_some hunit hmodule]
    · rfl
  rw [all, global_ofUnits, places, List.map_cons]
  exact congrArg (List.cons _) hmodules

end Scopes

/-! ## Whom the reports are about -/

namespace Scope

theorem unit_of_mem_reports {P : ℕ → Prop} {scope : Scope}
    (h : scope.Every fun symbol ↦ P symbol.unit) : ∀ entry ∈ scope.reports, P entry.1 := by
  intro entry hentry
  obtain ⟨named, hnamed, hentry⟩ := List.mem_flatMap.1 hentry
  obtain ⟨reported, hreported, rfl⟩ := List.mem_map.1 hentry
  exact h named hnamed _ (mem_of_mem_redeclarations hreported)

end Scope

/-- Reports about a scope are about units whose declarations go there. -/
theorem Scopes.home_of_mem_reports {units : List SourceUnit} {place : Option ℕ} :
    ∀ entry ∈ (Scope.ofSymbols (declarations units place)).reports,
      ∃ unit, units[entry.1]? = some unit ∧ unit.home entry.1 = place := by
  refine Scope.unit_of_mem_reports
    (P := fun index ↦ ∃ unit, units[index]? = some unit ∧ unit.home index = place)
    (Scope.every_ofSymbols fun entry hentry ↦ ?_)
  obtain ⟨unit, index, hunit, hhome, hsymbol⟩ := mem_declarations.1 hentry
  rw [SourceUnit.unit_eq_of_mem_symbols entry hsymbol]
  exact ⟨unit, hunit, hhome⟩

end VersionSweep
