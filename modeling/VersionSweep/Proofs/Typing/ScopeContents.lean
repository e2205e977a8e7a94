import Mathlib.Data.List.Basic
import VersionSweep.Typing.Scope

/-!
# What scopes hold

The symbols of a name in the scope of a module are those that the statements of the module declare
under it, in their order.  From then on only their types change: giving a type reaches the symbols
of one name that one statement declares, and leaves all others as they are.
-/

namespace VersionSweep

namespace Symbol

/-- A symbol after one statement's symbols are given a type. -/
def retyped (unit statement : ℕ) (type : BasicType) (symbol : Symbol) : Symbol :=
  if symbol.unit = unit ∧ symbol.statement = statement then { symbol with type } else symbol

theorem retyped_of_eq {symbol : Symbol} {unit statement : ℕ} (hunit : symbol.unit = unit)
    (hstatement : symbol.statement = statement) (type : BasicType) :
    symbol.retyped unit statement type = { symbol with type } :=
  if_pos ⟨hunit, hstatement⟩

theorem retyped_of_ne {symbol : Symbol} {unit statement : ℕ}
    (h : ¬ (symbol.unit = unit ∧ symbol.statement = statement)) (type : BasicType) :
    symbol.retyped unit statement type = symbol :=
  if_neg h

def isOffered (symbol : Symbol) : Bool :=
  symbol.exported && symbol.isVariable

@[simp] theorem isOffered_retyped (unit statement : ℕ) (type : BasicType) (symbol : Symbol) :
    (symbol.retyped unit statement type).isOffered = symbol.isOffered := by
  unfold retyped
  split <;> rfl

end Symbol

namespace Scope

def named (name : String) (symbols : List (String × Symbol)) : List Symbol :=
  symbols.filterMap fun entry ↦ if entry.1 = name then some entry.2 else none

theorem mem_named {name : String} {symbols : List (String × Symbol)} {symbol : Symbol} :
    symbol ∈ named name symbols ↔ (name, symbol) ∈ symbols := by
  simp [named, eq_comm]

theorem named_append (name : String) (symbols others : List (String × Symbol)) :
    named name (symbols ++ others) = named name symbols ++ named name others :=
  List.filterMap_append

theorem named_eq_nil_iff {name : String} {symbols : List (String × Symbol)} :
    named name symbols = [] ↔ name ∉ symbols.map Prod.fst := by
  rw [List.eq_nil_iff_forall_not_mem]
  simp [mem_named]

theorem getD_get?_declare (scope : Scope) (name declared : String) (symbol : Symbol) :
    ((scope.declare declared symbol).get? name).getD [] =
      (scope.get? name).getD [] ++ named name [(declared, symbol)] := by
  rw [declare, OrderedMap.get?_insert]
  by_cases h : declared = name
  · simp [h, named]
  · simp [h, named]

theorem getD_get?_foldl_declare (symbols : List (String × Symbol)) (scope : Scope) (name : String) :
    ((symbols.foldl (fun scope entry ↦ scope.declare entry.1 entry.2) scope).get? name).getD [] =
      (scope.get? name).getD [] ++ named name symbols := by
  induction symbols generalizing scope with
  | nil => simp [named]
  | cons entry rest ih =>
    have hcons : named name (entry :: rest) = named name [entry] ++ named name rest :=
      named_append name [entry] rest
    rw [List.foldl_cons, ih, getD_get?_declare, hcons, List.append_assoc]

theorem getD_get?_ofSymbols (symbols : List (String × Symbol)) (name : String) :
    ((ofSymbols symbols).get? name).getD [] = named name symbols := by
  rw [ofSymbols, getD_get?_foldl_declare]
  rfl

theorem get?_setType (scope : Scope) (unit statement : ℕ) (declared name : String)
    (type : BasicType) :
    (scope.setType unit statement declared type).get? name =
      if declared = name then (scope.get? name).map (List.map (Symbol.retyped unit statement type))
      else scope.get? name := by
  unfold setType
  split
  · rename_i hnone
    by_cases h : declared = name
    · rw [if_pos h, ← h, hnone]
      rfl
    · rw [if_neg h]
  · rename_i symbols hsymbols
    rw [OrderedMap.get?_insert]
    by_cases h : declared = name
    · rw [if_pos h, if_pos h, ← h, hsymbols]
      rfl
    · rw [if_neg h, if_neg h]

end Scope

namespace Scopes

def own (scopes : Scopes) (unit : ℕ) (name : String) : List Symbol :=
  ((scopes.module? unit).bind fun scope ↦ scope.get? name).getD []

theorem export?_eq_find?_own (scopes : Scopes) (unit : ℕ) (name : String) :
    scopes.export? unit name = (scopes.own unit name).find? Symbol.isOffered := by
  unfold export? own
  cases (scopes.module? unit).bind fun scope ↦ scope.get? name <;> rfl

/-- A name refers to the first symbol of the module's own. -/
theorem symbol?_eq_of_head?_own {scopes : Scopes} {unit : ℕ} {name : String} {symbol : Symbol}
    (h : (scopes.own unit name).head? = some symbol) : scopes.symbol? unit name = some symbol := by
  unfold own at h
  unfold symbol?
  cases hsymbols : (scopes.module? unit).bind fun scope ↦ scope.get? name with
  | none =>
    rw [hsymbols] at h
    cases h
  | some symbols =>
    rw [hsymbols] at h
    exact h

theorem lookup_map_modules (modules : List (ℕ × Scope)) (f : ℕ → Scope → Scope) (unit : ℕ) :
    (modules.map fun (index, scope) ↦ (index, f index scope)).lookup unit =
      (modules.lookup unit).map (f unit) := by
  induction modules with
  | nil => rfl
  | cons entry rest ih =>
    obtain ⟨index, scope⟩ := entry
    rw [List.map_cons, List.lookup_cons, List.lookup_cons]
    by_cases h : unit = index
    · simp [h]
    · have hne : (unit == index) = false := beq_eq_false_iff_ne.2 h
      rw [hne]
      exact ih

/-- Giving a type changes the symbols of one name in one unit only. -/
theorem own_setType (scopes : Scopes) (owner statement : ℕ) (declared : String) (type : BasicType)
    (unit : ℕ) (name : String) :
    (scopes.setType owner statement declared type).own unit name =
      if owner = unit ∧ declared = name then
        (scopes.own unit name).map (Symbol.retyped owner statement type)
      else scopes.own unit name := by
  by_cases hmodule : (scopes.module? owner).isSome = true
  · have hlookup : (scopes.setType owner statement declared type).module? unit =
        (scopes.module? unit).map fun scope ↦
          if unit = owner then scope.setType owner statement declared type else scope := by
      rw [setType, if_pos hmodule]
      exact lookup_map_modules scopes.modules
        (fun index scope ↦
          if index = owner then scope.setType owner statement declared type else scope) unit
    rw [own, own, hlookup]
    cases hscope : scopes.module? unit with
    | none => simp
    | some scope =>
      by_cases howner : unit = owner
      · by_cases hname : declared = name
        · cases hget : scope.get? name <;> simp [howner, hname, Scope.get?_setType, hget]
        · simp [howner, hname, Scope.get?_setType]
      · have hne : ¬ owner = unit := fun h ↦ howner h.symm
        simp [howner, hne]
  · have hsame : (scopes.setType owner statement declared type).own unit name =
        scopes.own unit name := by
      rw [setType, if_neg hmodule]
      rfl
    rw [hsame]
    split
    · rename_i heq
      have hnone : scopes.module? unit = none := by simpa [heq.1] using hmodule
      simp [own, hnone]
    · rfl

theorem module?_ofUnits {units : List SourceUnit} {index : ℕ} {unit : SourceUnit}
    (hunit : units[index]? = some unit) (hmodule : unit.isModule = true) :
    (ofUnits units).module? index = some (.ofSymbols (unit.symbols index)) := by
  obtain ⟨hlt, rfl⟩ := List.getElem?_eq_some_iff.1 hunit
  have hnumbered : index < units.zipIdx.length := by simpa using hlt
  have hsplit := List.take_append_drop index units.zipIdx
  rw [List.drop_eq_getElem_cons hnumbered, List.getElem_zipIdx, Nat.zero_add] at hsplit
  rw [module?, ofUnits, List.lookup_eq_some_iff]
  dsimp only
  conv in List.filterMap _ _ => rw [← hsplit]
  rw [List.filterMap_append, List.filterMap_cons]
  simp only [hmodule, if_true]
  refine ⟨_, _, rfl, ?_⟩
  intro entry hentry
  obtain ⟨⟨other, number⟩, hother, hsome⟩ := List.mem_filterMap.1 hentry
  obtain ⟨place, hplace, heq⟩ := List.getElem_of_mem hother
  rw [List.getElem_take, List.getElem_zipIdx, Nat.zero_add] at heq
  obtain ⟨-, rfl⟩ := Prod.mk.inj heq
  have hbefore : place < index := by
    rw [List.length_take] at hplace
    omega
  dsimp only at hsome
  split at hsome
  · obtain rfl := Option.some.inj hsome
    exact bne_iff_ne.2 (Nat.ne_of_gt hbefore)
  · cases hsome

/-- A module's own symbols of a name are those that its statements declare. -/
theorem own_ofUnits {units : List SourceUnit} {index : ℕ} {unit : SourceUnit}
    (hunit : units[index]? = some unit) (hmodule : unit.isModule = true) (name : String) :
    (ofUnits units).own index name = Scope.named name (unit.symbols index) := by
  rw [own, module?_ofUnits hunit hmodule, Option.bind_some, Scope.getD_get?_ofSymbols]

end Scopes

end VersionSweep
