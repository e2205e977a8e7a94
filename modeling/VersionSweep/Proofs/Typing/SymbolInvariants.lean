import VersionSweep.Typing.Scope

/-!
# Invariants of symbols

A property that all symbols of the scopes have from the beginning, and that does not hang on the
type of a symbol, stays with them for the whole check, since only types change there.
-/

namespace VersionSweep

/-- A property that stays when the type of a symbol changes. -/
def Symbol.TypeFree (P : Symbol → Prop) : Prop :=
  ∀ symbol type, P symbol → P { symbol with type }

variable {P : Symbol → Prop}

namespace Scope

def Every (P : Symbol → Prop) (scope : Scope) : Prop :=
  ∀ entry ∈ scope.entries, ∀ symbol ∈ entry.2, P symbol

theorem every_empty : Every P .empty := by
  intro entry hentry
  cases hentry

theorem Every.of_get? {scope : Scope} (h : scope.Every P) {name : String} {symbols : List Symbol}
    (hget : scope.get? name = some symbols) : ∀ symbol ∈ symbols, P symbol :=
  h _ (OrderedMap.mem_entries_of_get? hget)

theorem Every.insert {scope : Scope} (h : scope.Every P) {name : String} {symbols : List Symbol}
    (hsymbols : ∀ symbol ∈ symbols, P symbol) : Every P (scope.insert name symbols) := by
  intro entry hentry
  rcases OrderedMap.eq_or_mem_of_mem_insert hentry with rfl | hentry
  · exact hsymbols
  · exact h entry hentry

theorem Every.declare {scope : Scope} (h : scope.Every P) (name : String) {symbol : Symbol}
    (hsymbol : P symbol) : (scope.declare name symbol).Every P := by
  refine h.insert fun other hother ↦ ?_
  rcases List.mem_append.1 hother with hother | hother
  · cases hget : scope.get? name with
    | none =>
      rw [hget] at hother
      cases hother
    | some symbols =>
      rw [hget] at hother
      exact h.of_get? hget other hother
  · exact List.mem_singleton.1 hother ▸ hsymbol

theorem every_ofSymbols {symbols : List (String × Symbol)} (h : ∀ entry ∈ symbols, P entry.2) :
    (ofSymbols symbols).Every P :=
  List.foldlRecOn (motive := Every P) symbols _ every_empty fun _ hscope entry hentry ↦
    hscope.declare entry.1 (h entry hentry)

theorem Every.setType {scope : Scope} (h : scope.Every P) (hP : Symbol.TypeFree P)
    (unit statement : Nat) (name : String) (type : BasicType) :
    (scope.setType unit statement name type).Every P := by
  unfold Scope.setType
  split
  · exact h
  · rename_i symbols hget
    refine h.insert fun symbol hsymbol ↦ ?_
    obtain ⟨old, hold, rfl⟩ := List.mem_map.1 hsymbol
    split
    · exact hP old type (h.of_get? hget old hold)
    · exact h.of_get? hget old hold

end Scope

namespace Scopes

structure Every (P : Symbol → Prop) (scopes : Scopes) : Prop where
  global : scopes.global.Every P
  modules : ∀ entry ∈ scopes.modules, entry.2.Every P

theorem Every.all {scopes : Scopes} (h : scopes.Every P) : ∀ scope ∈ scopes.all, scope.Every P := by
  intro scope hscope
  rcases List.mem_cons.1 hscope with rfl | hscope
  · exact h.global
  · obtain ⟨entry, hentry, rfl⟩ := List.mem_map.1 hscope
    exact h.modules entry hentry

theorem Every.setType {scopes : Scopes} (h : scopes.Every P) (hP : Symbol.TypeFree P)
    (unit statement : Nat) (name : String) (type : BasicType) :
    (scopes.setType unit statement name type).Every P := by
  unfold Scopes.setType
  split
  · refine ⟨h.global, fun entry hentry ↦ ?_⟩
    obtain ⟨old, hold, rfl⟩ := List.mem_map.1 hentry
    dsimp only
    split
    · exact (h.modules old hold).setType hP unit statement name type
    · exact h.modules old hold
  · exact ⟨h.global.setType hP unit statement name type, h.modules⟩

/-- What holds of the symbols of each unit holds of the scopes that the units make. -/
theorem every_ofUnits {units : List SourceUnit}
    (h : ∀ (unit : SourceUnit) (index : Nat), units[index]? = some unit →
      ∀ entry ∈ unit.symbols index, P entry.2) :
    (ofUnits units).Every P := by
  refine ⟨Scope.every_ofSymbols fun entry hentry ↦ ?_, fun entry hentry ↦ ?_⟩
  · obtain ⟨⟨unit, index⟩, hunit, hsymbol⟩ := List.mem_flatMap.1 hentry
    dsimp only at hsymbol
    split at hsymbol
    · cases hsymbol
    · exact h unit index (List.mem_zipIdx_iff_getElem?.1 hunit) entry hsymbol
  · obtain ⟨⟨unit, index⟩, hunit, hmodule⟩ := List.mem_filterMap.1 hentry
    dsimp only at hmodule
    split at hmodule
    · obtain rfl := Option.some.inj hmodule
      exact Scope.every_ofSymbols (h unit index (List.mem_zipIdx_iff_getElem?.1 hunit))
    · cases hmodule

end Scopes

end VersionSweep
