import Mathlib.Data.List.Nodup
import Mathlib.Data.List.Sigma
import VersionSweep.Typing.Checking

/-!
# The run of a check

The last pass of a check goes through the statements of all units but the library in one row.  Each
statement comes up once, under the number of its unit and its own.  So the type that a check ends up
with for a declaration is the one that the declaration was given in the state in which it came up.
-/

namespace VersionSweep.Checking

/-- A statement as it comes up: the number of its unit, the statement, its own number. -/
abbrev Round : Type := ℕ × Statement × ℕ

namespace Round

def key (round : Round) : ℕ × ℕ := (round.1, round.2.2)

end Round

def rounds (units : List SourceUnit) : List Round :=
  units.zipIdx.flatMap fun (unit, index) ↦
    if unit.isLibrary then [] else unit.numbered.map fun numbered ↦ (index, numbered)

def prepared (units : List SourceUnit) : Checking :=
  let resolved := (⟨.ofUnits units, [], []⟩ : Checking).resolveImports units
  { resolved with found := resolved.found ++ Scope.allRedeclarations resolved.scopes.all }

def checkRound (dialect : Dialect) (implicitAny : Bool) (state : Checking) (round : Round) :
    Checking :=
  state.checkStatement dialect implicitAny round.1 round.2

def stateAfter (units : List SourceUnit) (settings : Assignment) (dialect : Dialect)
    (passed : List Round) : Checking :=
  passed.foldl (checkRound dialect (reportsImplicitAny settings)) (prepared units)

variable {units : List SourceUnit}

theorem checkUnits_eq_foldl (dialect : Dialect) (implicitAny : Bool) (units : List SourceUnit)
    (state : Checking) :
    state.checkUnits dialect implicitAny units =
      (rounds units).foldl (checkRound dialect implicitAny) state := by
  rw [rounds, List.foldl_flatMap, checkUnits]
  congr 1
  funext state numbered
  obtain ⟨unit, index⟩ := numbered
  by_cases hlibrary : unit.isLibrary = true
  · simp [hlibrary]
  · simp [hlibrary, List.foldl_map, checkRound]

theorem check_eq_stateAfter (units : List SourceUnit) (settings : Assignment) (dialect : Dialect) :
    check units settings dialect =
      ⟨(stateAfter units settings dialect (rounds units)).diagnostics units,
        (stateAfter units settings dialect (rounds units)).types⟩ := by
  rw [check, checkVisiting, checkUnits_eq_foldl]
  rfl

theorem mem_rounds_iff {index number : ℕ} {statement : Statement} :
    (index, statement, number) ∈ rounds units ↔
      ∃ unit, units[index]? = some unit ∧ unit.isLibrary = false ∧
        unit.file.statements[number]? = some statement := by
  constructor
  · intro h
    obtain ⟨⟨unit, other⟩, hunit, h⟩ := List.mem_flatMap.1 h
    dsimp only at h
    split at h
    · cases h
    rename_i hlibrary
    obtain ⟨numbered, hnumbered, heq⟩ := List.mem_map.1 h
    obtain ⟨rfl, rfl⟩ := Prod.mk.inj heq
    exact ⟨unit, List.mem_zipIdx_iff_getElem?.1 hunit, Bool.eq_false_iff.2 hlibrary,
      List.mem_zipIdx_iff_getElem?.1 hnumbered⟩
  · rintro ⟨unit, hunit, hlibrary, hstatement⟩
    refine List.mem_flatMap.2 ⟨(unit, index), List.mem_zipIdx_iff_getElem?.2 hunit, ?_⟩
    dsimp only
    rw [if_neg (by rw [hlibrary]; decide)]
    exact List.mem_map_of_mem (List.mem_zipIdx_iff_getElem?.2 hstatement)

/-- Each statement comes up once. -/
theorem nodup_map_key_rounds (units : List SourceUnit) :
    ((rounds units).map Round.key).Nodup := by
  rw [rounds, List.map_flatMap, List.nodup_flatMap]
  constructor
  · rintro ⟨unit, index⟩ -
    by_cases hlibrary : unit.isLibrary = true
    · simp [hlibrary]
    · have hkeys : ((unit.numbered.map fun numbered ↦ (index, numbered)).map Round.key) =
          (unit.numbered.map Prod.snd).map fun number ↦ (index, number) := by
        simp [Round.key]
      dsimp only
      rw [if_neg hlibrary, hkeys]
      have hnumbers : (unit.numbered.map Prod.snd).Nodup :=
        List.nodup_zipIdx_map_snd unit.file.statements
      exact hnumbers.map fun number other h ↦ (Prod.mk.inj h).2
  · have hindices : (units.zipIdx.map Prod.snd).Nodup := List.nodup_zipIdx_map_snd units
    refine (List.pairwise_map.1 hindices).imp ?_
    intro entry other hne key hkey hother
    have howner {entry : SourceUnit × ℕ}
        (h : key ∈ (if entry.1.isLibrary then ([] : List Round) else
          entry.1.numbered.map fun numbered ↦ (entry.2, numbered)).map Round.key) :
        key.1 = entry.2 := by
      split at h
      · cases h
      · obtain ⟨round, hround, rfl⟩ := List.mem_map.1 h
        obtain ⟨numbered, -, rfl⟩ := List.mem_map.1 hround
        rfl
    exact hne ((howner hkey).symm.trans (howner hother))

theorem types_resolveImports (units : List SourceUnit) (state : Checking) :
    (state.resolveImports units).types = state.types := by
  refine List.foldlRecOn (motive := fun after : Checking ↦ after.types = state.types) _ _ rfl ?_
  intro after hafter entry _
  refine List.foldlRecOn (motive := fun after : Checking ↦ after.types = state.types) _ _ hafter ?_
  intro after hafter numbered _
  obtain ⟨statement, number⟩ := numbered
  cases statement with
  | var decl => exact hafter
  | expr value span => exact hafter
  | importNames decl =>
    unfold resolveImport
    dsimp only
    split
    · exact hafter
    split
    · exact hafter
    split
    · refine List.foldlRecOn (motive := fun after : Checking ↦ after.types = state.types)
        _ _ hafter ?_
      intro after hafter name _
      unfold importName
      split <;> exact hafter
    · exact hafter

theorem types_prepared (units : List SourceUnit) : (prepared units).types = [] :=
  types_resolveImports units ⟨.ofUnits units, [], []⟩

theorem types_checkRound (dialect : Dialect) (implicitAny : Bool) (state : Checking)
    (round : Round) :
    (checkRound dialect implicitAny state round).types = state.types ∨
      ∃ type, (checkRound dialect implicitAny state round).types =
        state.types ++ [(round.key, type)] := by
  obtain ⟨index, statement, number⟩ := round
  cases statement with
  | var decl => exact .inr ⟨_, rfl⟩
  | importNames decl => exact .inl rfl
  | expr value span => exact .inl rfl

theorem lookup_types_foldl (dialect : Dialect) (implicitAny : Bool) {passed : List Round}
    {key : ℕ × ℕ} (h : key ∉ passed.map Round.key) (state : Checking) :
    (passed.foldl (checkRound dialect implicitAny) state).types.lookup key =
      state.types.lookup key := by
  induction passed generalizing state with
  | nil => rfl
  | cons round rest ih =>
    rw [List.map_cons, List.mem_cons, not_or] at h
    rw [List.foldl_cons, ih h.2]
    obtain hsame | ⟨type, hmore⟩ := types_checkRound dialect implicitAny state round
    · rw [hsame]
    · have hne : (key == round.key) = false := beq_eq_false_iff_ne.2 h.1
      rw [hmore, List.lookup_append, List.lookup_cons, hne]
      simp

/-- A check ends up with the type for a declaration that it gets when it comes up. -/
theorem exists_lookup_types_check (settings : Assignment) (dialect : Dialect) {unit : SourceUnit}
    {index number : ℕ} {decl : VarDecl} (hunit : units[index]? = some unit)
    (hsource : unit.isLibrary = false)
    (hdecl : unit.file.statements[number]? = some (.var decl)) :
    ∃ before after, rounds units = before ++ (index, .var decl, number) :: after ∧
      (check units settings dialect).types.lookup (index, number) =
        some (decl.checkedType (decl.valueTyping
          ((stateAfter units settings dialect before).scopes.type? index)).1) := by
  have hmem : (index, .var decl, number) ∈ rounds units :=
    mem_rounds_iff.2 ⟨unit, hunit, hsource, hdecl⟩
  obtain ⟨before, after, hsplit⟩ := List.append_of_mem hmem
  refine ⟨before, after, hsplit, ?_⟩
  have hnodup := nodup_map_key_rounds units
  rw [hsplit, List.map_append, List.map_cons, List.nodup_append] at hnodup
  obtain ⟨-, hlater, hearlier⟩ := hnodup
  have hafter : (index, number) ∉ after.map Round.key := (List.nodup_cons.1 hlater).1
  have hbefore : (index, number) ∉ before.map Round.key := fun h ↦
    hearlier _ h _ (List.mem_cons_self ..) rfl
  have hstate : stateAfter units settings dialect (rounds units) =
      after.foldl (checkRound dialect (reportsImplicitAny settings))
        (checkRound dialect (reportsImplicitAny settings)
          (stateAfter units settings dialect before) (index, .var decl, number)) := by
    rw [hsplit, stateAfter, List.foldl_append, List.foldl_cons]
    rfl
  -- Nothing was noted under this number before, and nothing is later.
  have hnone : (stateAfter units settings dialect before).types.lookup (index, number) = none := by
    rw [stateAfter, lookup_types_foldl dialect _ hbefore, types_prepared]
    rfl
  rw [check_eq_stateAfter, hstate]
  dsimp only
  rw [lookup_types_foldl dialect _ hafter, checkRound, checkStatement, checkVar]
  dsimp only [report]
  rw [List.lookup_append, hnone, Option.none_or, List.lookup_cons, beq_self_eq_true]

end VersionSweep.Checking
