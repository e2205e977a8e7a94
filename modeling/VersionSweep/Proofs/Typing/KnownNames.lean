import VersionSweep.Proofs.Typing.ImportedTypes
import VersionSweep.Proofs.Typing.ScopeReports

/-!
# Names that are known

A unit knows the names that are declared in its own scope, if it is a module, and those of the
global scope.  Which names these are is settled before anything is checked: a check gives symbols
their types, but it brings in no symbol and takes none away.  So the place of a declaration has no
part in whether a name is known, not even whether it comes later.
-/

namespace VersionSweep

/-- Whether a name is declared in a module itself, or by a variable of a unit that is no module. -/
def SourceUnit.Knows (units : List SourceUnit) (unit : SourceUnit) (name : String) : Prop :=
  (unit.isModule = true ∧ ∃ statement ∈ unit.file.statements, name ∈ statement.declaredNames) ∨
    ∃ other ∈ units, other.isModule = false ∧
      ∃ decl, .var decl ∈ other.file.statements ∧ decl.name.text = name

namespace Scope

/-- A scope has an entry for each name that is declared, with all its symbols, and no other. -/
theorem get?_ofSymbols (symbols : List (String × Symbol)) (name : String) :
    (ofSymbols symbols).get? name =
      if named name symbols = [] then none else some (named name symbols) := by
  have hfull : ∀ entry ∈ (ofSymbols symbols).entries, entry.2 ≠ [] := by
    refine List.foldlRecOn (motive := fun scope : Scope ↦ ∀ entry ∈ scope.entries, entry.2 ≠ [])
      symbols _ (by simp [OrderedMap.empty]) fun scope h declared _ entry hentry ↦ ?_
    obtain rfl | hentry := OrderedMap.eq_or_mem_of_mem_insert hentry
    · exact List.append_ne_nil_of_right_ne_nil _ (List.cons_ne_nil _ _)
    · exact h entry hentry
  have hnamed := getD_get?_ofSymbols symbols name
  cases hget : (ofSymbols symbols).get? name with
  | none =>
    rw [hget, Option.getD_none] at hnamed
    rw [if_pos hnamed.symm]
  | some found =>
    rw [hget, Option.getD_some] at hnamed
    rw [if_neg (hnamed ▸ hfull _ (OrderedMap.mem_entries_of_get? hget)), hnamed]

/-- Giving a type changes the symbols of a name, and never how many there are. -/
theorem exists_get?_setType_eq_map (scope : Scope) (unit statement : ℕ) (declared name : String)
    (type : BasicType) : ∃ f : Symbol → Symbol,
      (scope.setType unit statement declared type).get? name =
        (scope.get? name).map (List.map f) := by
  rw [get?_setType]
  split
  · exact ⟨_, rfl⟩
  · exact ⟨id, by simp⟩

end Scope

namespace Scopes

variable {scopes : Scopes} {units : List SourceUnit} {unit : SourceUnit} {index : ℕ}

theorem exists_module?_setType_eq_map (scopes : Scopes) (owner statement : ℕ) (declared : String)
    (type : BasicType) (index : ℕ) (name : String) : ∃ f : Symbol → Symbol,
      (((scopes.setType owner statement declared type).module? index).bind fun scope ↦
        scope.get? name) =
      ((scopes.module? index).bind fun scope ↦ scope.get? name).map (List.map f) := by
  unfold setType
  split
  · have hlookup := lookup_map_modules scopes.modules (fun number scope ↦
      if number = owner then scope.setType owner statement declared type else scope) index
    rw [module?, hlookup, module?]
    cases scopes.modules.lookup index with
    | none => exact ⟨id, rfl⟩
    | some scope =>
      simp only [Option.map_some, Option.bind_some]
      split
      · exact scope.exists_get?_setType_eq_map owner statement declared name type
      · exact ⟨id, by simp⟩
  · exact ⟨id, by simp [module?]⟩

theorem exists_global_setType_eq_map (scopes : Scopes) (owner statement : ℕ) (declared : String)
    (type : BasicType) (name : String) : ∃ f : Symbol → Symbol,
      (scopes.setType owner statement declared type).global.get? name =
        (scopes.global.get? name).map (List.map f) := by
  unfold setType
  split
  · exact ⟨id, by simp⟩
  · exact scopes.global.exists_get?_setType_eq_map owner statement declared name type

/-- Giving a type makes no name known and none unknown. -/
theorem isSome_type?_setType (scopes : Scopes) (owner statement : ℕ) (declared : String)
    (type : BasicType) (index : ℕ) (name : String) :
    ((scopes.setType owner statement declared type).type? index name).isSome =
      (scopes.type? index name).isSome := by
  obtain ⟨f, hmodule⟩ :=
    scopes.exists_module?_setType_eq_map owner statement declared type index name
  obtain ⟨g, hglobal⟩ := scopes.exists_global_setType_eq_map owner statement declared type name
  rw [type?, type?, symbol?, symbol?, hmodule, hglobal]
  cases (scopes.module? index).bind fun scope ↦ scope.get? name with
  | some symbols => simp
  | none => cases scopes.global.get? name <;> simp

theorem module?_ofUnits_eq_none (hunit : units[index]? = some unit)
    (hscript : unit.isModule = false) : (ofUnits units).module? index = none := by
  rw [module?, List.lookup_eq_none_iff]
  intro entry hentry
  obtain ⟨⟨found, number⟩, hmem, hsome⟩ := List.mem_filterMap.1 hentry
  have hfound := List.mem_zipIdx_iff_getElem?.1 hmem
  dsimp only at hfound hsome
  split at hsome
  · rename_i hmodule
    obtain rfl := Option.some.inj hsome
    rw [bne_iff_ne]
    rintro rfl
    obtain rfl := Option.some.inj (hfound.symm.trans hunit)
    rw [hscript] at hmodule
    cases hmodule
  · cases hsome

/-- The global scope declares the variables of all units that are no modules. -/
theorem named_declarations_none_ne_nil (units : List SourceUnit) (name : String) :
    Scope.named name (declarations units none) ≠ [] ↔
      ∃ other ∈ units, other.isModule = false ∧
        ∃ decl, .var decl ∈ other.file.statements ∧ decl.name.text = name := by
  rw [Ne, Scope.named_eq_nil_iff, not_not, List.mem_map]
  constructor
  · rintro ⟨entry, hentry, rfl⟩
    obtain ⟨other, number, hother, hhome, hsymbol⟩ := mem_declarations.1 hentry
    have hscript : other.isModule = false := by
      rw [SourceUnit.home] at hhome
      split at hhome
      · cases hhome
      · rename_i hmodule
        exact Bool.eq_false_iff.2 hmodule
    obtain ⟨statement, place, hstatement, hsymbol⟩ := SourceUnit.mem_symbols_iff.1 hsymbol
    refine ⟨other, List.mem_of_getElem? hother, hscript, ?_⟩
    cases statement with
    | var decl =>
      obtain rfl := List.mem_singleton.1 hsymbol
      exact ⟨decl, List.mem_of_getElem? hstatement, rfl⟩
    | importNames decl =>
      have hmodule : other.isModule = true :=
        List.any_eq_true.2 ⟨_, List.mem_of_getElem? hstatement, rfl⟩
      rw [hscript] at hmodule
      cases hmodule
    | expr value span => cases hsymbol
  · rintro ⟨other, hmem, hscript, decl, hdecl, rfl⟩
    obtain ⟨number, hother⟩ := List.mem_iff_getElem?.1 hmem
    obtain ⟨place, hplace⟩ := List.mem_iff_getElem?.1 hdecl
    refine ⟨_, mem_declarations.2 ⟨other, number, hother, ?_, SourceUnit.mem_symbols_iff.2
      ⟨.var decl, place, hplace, List.mem_singleton.2 rfl⟩⟩, rfl⟩
    rw [SourceUnit.home, hscript]
    rfl

theorem named_symbols_ne_nil (unit : SourceUnit) (index : ℕ) (name : String) :
    Scope.named name (unit.symbols index) ≠ [] ↔
      ∃ statement ∈ unit.file.statements, name ∈ statement.declaredNames := by
  rw [Ne, Scope.named_eq_nil_iff, not_not, List.mem_map]
  constructor
  · rintro ⟨entry, hentry, rfl⟩
    obtain ⟨statement, place, hstatement, hsymbol⟩ := SourceUnit.mem_symbols_iff.1 hentry
    refine ⟨statement, List.mem_of_getElem? hstatement, ?_⟩
    rw [← Statement.map_fst_symbols index place]
    exact List.mem_map_of_mem hsymbol
  · rintro ⟨statement, hmem, hname⟩
    obtain ⟨place, hstatement⟩ := List.mem_iff_getElem?.1 hmem
    rw [← Statement.map_fst_symbols index place] at hname
    obtain ⟨entry, hsymbol, rfl⟩ := List.mem_map.1 hname
    exact ⟨entry, SourceUnit.mem_symbols_iff.2 ⟨statement, place, hstatement, hsymbol⟩, rfl⟩

/-- The names that a unit knows at first are those that are declared where it looks. -/
theorem isSome_type?_ofUnits (hunit : units[index]? = some unit) (name : String) :
    ((ofUnits units).type? index name).isSome = true ↔ unit.Knows units name := by
  have hglobal : ((ofUnits units).global.get? name).bind List.head? =
      (Scope.named name (declarations units none)).head? := by
    rw [global_ofUnits, Scope.get?_ofSymbols]
    split
    · rename_i hnil
      rw [hnil]
      rfl
    · rfl
  rw [SourceUnit.Knows, ← named_declarations_none_ne_nil units name,
    ← named_symbols_ne_nil unit index name, type?, Option.isSome_map, symbol?, hglobal]
  cases hmodule : unit.isModule with
  | false =>
    rw [module?_ofUnits_eq_none hunit hmodule]
    simp
  | true =>
    rw [module?_ofUnits hunit hmodule, Option.bind_some, Scope.get?_ofSymbols]
    by_cases hown : Scope.named name (unit.symbols index) = []
    · simp [hown]
    · simp [hown]

end Scopes

/-- What a unit knows is the same whenever a statement comes up. -/
theorem Checking.isSome_type?_stateAfter {units : List SourceUnit} {unit : SourceUnit} {index : ℕ}
    (hunit : units[index]? = some unit) (settings : Assignment) (dialect : Dialect)
    (passed : List Round) (name : String) :
    ((stateAfter units settings dialect passed).scopes.type? index name).isSome = true ↔
      unit.Knows units name := by
  rw [← Scopes.isSome_type?_ofUnits hunit name, Bool.coe_iff_coe]
  let P (scopes : Scopes) : Prop :=
    (scopes.type? index name).isSome = ((Scopes.ofUnits units).type? index name).isSome
  have hP : Scopes.TypeFree P := fun scopes owner statement declared type h ↦
    (scopes.isSome_type?_setType owner statement declared type index name).trans h
  have hbound : P (⟨.ofUnits units, [], []⟩ : Checking).scopes := rfl
  have hprepared : P (prepared units).scopes := scopes_resolveImports hP hbound units
  exact List.foldlRecOn (motive := fun state : Checking ↦ P state.scopes) passed _ hprepared
    fun state h round _ ↦ scopes_checkRound hP h dialect _ round

end VersionSweep
