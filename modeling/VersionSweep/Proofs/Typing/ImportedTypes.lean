import VersionSweep.Proofs.Project.ParsedUnits
import VersionSweep.Proofs.Typing.CheckRun
import VersionSweep.Proofs.Typing.ScopeContents

/-!
# Types of imported names

Imports take their types before any value is looked at, so an imported name goes by the type that
its declaration has beforehand: the annotation, the type of a bare literal, or `any`.  References to
the name are checked against this type during the whole check.  It is the type that the declaration
ends up with wherever the value has no say in it or says the same.
-/

namespace VersionSweep

def Statement.declaredNames : Statement → List String
  | .var decl => [decl.name.text]
  | .importNames decl => decl.names.map Ident.text
  | .expr _ _ => []

def Statement.importsName (name : String) : Statement → Bool
  | .importNames decl => name ∈ decl.names.map Ident.text
  | _ => false

def Statement.exportsName (name : String) : Statement → Bool
  | .var decl => decl.exported && decl.name.text = name
  | _ => false

@[simp] theorem Statement.map_fst_symbols (unit number : ℕ) (statement : Statement) :
    (statement.symbols unit number).map Prod.fst = statement.declaredNames := by
  cases statement with
  | var decl => rfl
  | importNames decl => simp [symbols, declaredNames, Function.comp_def]
  | expr value span => rfl

namespace SourceUnit

/-- A statement imports a name from a unit, no earlier one having declared the name. -/
structure ImportsFirst (unit : SourceUnit) (number : ℕ) (name : String) (target : ℕ) : Prop where
  imports : unit.file.statements[number]?.any (Statement.importsName name) = true
  leads : unit.import? number = some target
  first : ∀ statement ∈ unit.file.statements.take number, name ∉ statement.declaredNames

/-- A statement exports a variable, and no other one exports a variable of the name. -/
structure ExportsOnce (unit : SourceUnit) (number : ℕ) (decl : VarDecl) : Prop where
  statement : unit.file.statements[number]? = some (.var decl)
  exported : decl.exported = true
  once : unit.file.statements.countP (Statement.exportsName decl.name.text) = 1

instance (unit : SourceUnit) (number : ℕ) (name : String) (target : ℕ) :
    Decidable (unit.ImportsFirst number name target) :=
  decidable_of_iff
    (unit.file.statements[number]?.any (Statement.importsName name) = true ∧
      unit.import? number = some target ∧
      ∀ statement ∈ unit.file.statements.take number, name ∉ statement.declaredNames)
    ⟨fun ⟨h₁, h₂, h₃⟩ ↦ ⟨h₁, h₂, h₃⟩, fun ⟨h₁, h₂, h₃⟩ ↦ ⟨h₁, h₂, h₃⟩⟩

variable {unit : SourceUnit} {number target : ℕ} {name : String} {decl : VarDecl}

theorem ImportsFirst.statement (h : unit.ImportsFirst number name target) :
    ∃ decl, unit.file.statements[number]? = some (.importNames decl) ∧
      name ∈ decl.names.map Ident.text := by
  obtain ⟨statement, hstatement, himports⟩ := (Option.any_eq_true _ _).1 h.imports
  cases statement with
  | var decl => cases himports
  | expr value span => cases himports
  | importNames decl => exact ⟨decl, hstatement, of_decide_eq_true himports⟩

theorem ImportsFirst.isModule (h : unit.ImportsFirst number name target) :
    unit.isModule = true := by
  obtain ⟨imported, hstatement, -⟩ := h.statement
  exact List.any_eq_true.2 ⟨_, List.mem_of_getElem? hstatement, rfl⟩

theorem ExportsOnce.eq_of_exportsName (h : unit.ExportsOnce number decl) {other : ℕ}
    {statement : Statement} (hstatement : unit.file.statements[other]? = some statement)
    (hexports : statement.exportsName decl.name.text = true) : other = number := by
  obtain ⟨hlt, hget⟩ := List.getElem?_eq_some_iff.1 h.statement
  have hself : Statement.exportsName decl.name.text (.var decl) = true := by
    simp [Statement.exportsName, h.exported]
  have honce := h.once
  rw [← List.take_append_drop number unit.file.statements, List.drop_eq_getElem_cons hlt, hget,
    List.countP_append, List.countP_cons_of_pos hself] at honce
  have hbefore : (unit.file.statements.take number).countP
      (Statement.exportsName decl.name.text) = 0 := by omega
  have hafter : (unit.file.statements.drop (number + 1)).countP
      (Statement.exportsName decl.name.text) = 0 := by omega
  rw [List.countP_eq_zero] at hbefore hafter
  by_contra hne
  rcases Nat.lt_or_gt_of_ne hne with hlt | hgt
  · have hmem : statement ∈ unit.file.statements.take number := by
      apply List.mem_of_getElem? (i := other)
      rw [List.getElem?_take_of_lt hlt, hstatement]
    exact hbefore statement hmem hexports
  · have hmem : statement ∈ unit.file.statements.drop (number + 1) := by
      apply List.mem_of_getElem? (i := other - (number + 1))
      rw [List.getElem?_drop, Nat.add_sub_cancel' hgt, hstatement]
    exact hafter statement hmem hexports

theorem ExportsOnce.isModule (h : unit.ExportsOnce number decl) : unit.isModule = true :=
  List.any_eq_true.2 ⟨_, List.mem_of_getElem? h.statement, h.exported⟩

theorem mem_symbols_iff {index : ℕ} {entry : String × Symbol} :
    entry ∈ unit.symbols index ↔ ∃ (statement : Statement) (number : ℕ),
      unit.file.statements[number]? = some statement ∧ entry ∈ statement.symbols index number := by
  constructor
  · intro h
    obtain ⟨⟨statement, number⟩, hnumbered, hentry⟩ := List.mem_flatMap.1 h
    exact ⟨statement, number, List.mem_zipIdx_iff_getElem?.1 hnumbered, hentry⟩
  · rintro ⟨statement, number, hstatement, hentry⟩
    exact List.mem_flatMap.2
      ⟨(statement, number), List.mem_zipIdx_iff_getElem?.2 hstatement, hentry⟩

end SourceUnit

/-- An imported name: the import by its unit and statement, the exporting unit, what is offered
there, and where the name stands in the import. -/
structure ImportLink where
  name : String
  importer : ℕ
  statement : ℕ
  exporter : ℕ
  offered : Symbol
  span : Span

namespace ImportLink

def imported (link : ImportLink) (type : BasicType) : Symbol :=
  ⟨.imported, type, false, link.importer, link.statement, link.span⟩

def Shows (link : ImportLink) (type : BasicType) (scopes : Scopes) : Prop :=
  (scopes.own link.importer link.name).head? = some (link.imported type)

def Offers (link : ImportLink) (scopes : Scopes) : Prop :=
  (scopes.own link.exporter link.name).find? Symbol.isOffered = some link.offered

variable {link : ImportLink} {type : BasicType} {scopes : Scopes}

theorem Shows.type? (h : link.Shows type scopes) :
    scopes.type? link.importer link.name = some type := by
  rw [Scopes.type?, Scopes.symbol?_eq_of_head?_own h]
  rfl

theorem Shows.setType (h : link.Shows type scopes) (unit statement : ℕ) (name : String)
    (given : BasicType) :
    link.Shows (if unit = link.importer ∧ statement = link.statement ∧ name = link.name then given
      else type) (scopes.setType unit statement name given) := by
  unfold Shows at h ⊢
  rw [Scopes.own_setType]
  by_cases hplace : unit = link.importer ∧ name = link.name
  · rw [if_pos hplace, List.head?_map, h, Option.map_some]
    by_cases hstatement : statement = link.statement
    · rw [if_pos ⟨hplace.1, hstatement, hplace.2⟩,
        Symbol.retyped_of_eq hplace.1.symm hstatement.symm]
      rfl
    · rw [if_neg fun hall ↦ hstatement hall.2.1,
        Symbol.retyped_of_ne fun hall ↦ hstatement hall.2.symm]
  · rw [if_neg hplace, if_neg fun hall ↦ hplace ⟨hall.1, hall.2.2⟩]
    exact h

theorem Offers.setType (h : link.Offers scopes) {unit statement : ℕ}
    (hother : ¬ (link.offered.unit = unit ∧ link.offered.statement = statement)) (name : String)
    (given : BasicType) : link.Offers (scopes.setType unit statement name given) := by
  unfold Offers at h ⊢
  rw [Scopes.own_setType]
  split
  · have hsame : Symbol.isOffered ∘ Symbol.retyped unit statement given = Symbol.isOffered :=
      funext fun symbol ↦ Symbol.isOffered_retyped unit statement given symbol
    rw [List.find?_map, hsame, h, Option.map_some, Symbol.retyped_of_ne hother]
  · exact h

/-- The link as a program has it: the import leads to the exporting unit, and what is offered there
is a variable that a statement of that unit declares. -/
structure Fits (units : List SourceUnit) (link : ImportLink) : Prop where
  imports : ∃ unit decl, units[link.importer]? = some unit ∧
    unit.file.statements[link.statement]? = some (.importNames decl) ∧
    link.name ∈ decl.names.map Ident.text ∧ unit.import? link.statement = some link.exporter
  exports : ∃ unit decl, units[link.exporter]? = some unit ∧ unit.isModule = true ∧
    link.offered.unit = link.exporter ∧
    unit.file.statements[link.offered.statement]? = some (.var decl)

end ImportLink

namespace Checking

variable {units : List SourceUnit} {link : ImportLink}

/-! ## Imports are resolved -/

/-- Whether what is offered is as it was and the import shows one of some types. -/
def Carries (link : ImportLink) (types : BasicType → Prop) (state : Checking) : Prop :=
  link.Offers state.scopes ∧ ∃ type, types type ∧ link.Shows type state.scopes

variable {types : BasicType → Prop} {state : Checking}

theorem Carries.importName (h : state.Carries link types) (hoffered : types link.offered.type)
    {unit statement target : ℕ}
    (hother : ¬ (link.offered.unit = unit ∧ link.offered.statement = statement))
    (htarget : unit = link.importer → statement = link.statement → target = link.exporter)
    (specifier : String) (name : Ident) :
    (state.importName unit statement target specifier name).Carries link types := by
  obtain ⟨hoffers, type, htype, hshows⟩ := h
  unfold Checking.importName
  split
  · rename_i symbol hsymbol
    refine ⟨hoffers.setType hother name.text symbol.type, _, ?_,
      hshows.setType unit statement name.text symbol.type⟩
    split
    · rename_i hplace
      obtain ⟨hunit, hstatement, hname⟩ := hplace
      rw [Scopes.export?_eq_find?_own, htarget hunit hstatement, hname, hoffers] at hsymbol
      exact Option.some.inj hsymbol ▸ hoffered
    · exact htype
  · exact ⟨hoffers, type, htype, hshows⟩

theorem Carries.importName_self (h : state.Carries link types)
    (hother : ¬ (link.offered.unit = link.importer ∧ link.offered.statement = link.statement))
    (specifier : String) {name : Ident} (hname : name.text = link.name) :
    (state.importName link.importer link.statement link.exporter specifier name).Carries link
      (· = link.offered.type) := by
  obtain ⟨hoffers, type, -, hshows⟩ := h
  have hexport : state.scopes.export? link.exporter name.text = some link.offered := by
    rw [Scopes.export?_eq_find?_own, hname]
    exact hoffers
  have hset := hshows.setType link.importer link.statement name.text link.offered.type
  rw [if_pos ⟨rfl, rfl, hname⟩] at hset
  simp only [Checking.importName, hexport]
  exact ⟨hoffers.setType hother name.text _, _, rfl, hset⟩

/-- A step of a run brings about a property for good if it comes up in the run. -/
theorem foldl_of_mem {α β : Type*} {P Q : β → Prop} {step : β → α → β} {items : List α} {item : α}
    (hitem : item ∈ items) (hP : ∀ state, P state → ∀ item ∈ items, P (step state item))
    (hQ : ∀ state, Q state → ∀ item ∈ items, Q (step state item))
    (hreach : ∀ state, P state → Q (step state item)) {state : β} (h : P state) :
    Q (items.foldl step state) := by
  obtain ⟨before, after, rfl⟩ := List.append_of_mem hitem
  rw [List.foldl_append, List.foldl_cons]
  have hbefore : P (before.foldl step state) :=
    List.foldlRecOn before step h fun state hstate item hmem ↦
      hP state hstate item (List.mem_append_left _ hmem)
  exact List.foldlRecOn after step (hreach _ hbefore) fun state hstate item hmem ↦
    hQ state hstate item (List.mem_append_right _ (List.mem_cons_of_mem _ hmem))

variable {unit : SourceUnit} {index number : ℕ}

theorem ne_of_importNames (hfits : link.Fits units) (hunit : units[index]? = some unit)
    {decl : ImportDecl} (hstatement : unit.file.statements[number]? = some (.importNames decl)) :
    ¬ (link.offered.unit = index ∧ link.offered.statement = number) := by
  rintro ⟨hindex, rfl⟩
  obtain ⟨exporter, exported, hexporter, -, howner, hvar⟩ := hfits.exports
  rw [← howner, hindex, hunit] at hexporter
  obtain rfl := Option.some.inj hexporter
  -- What is offered is a variable, so no import declares it.
  rw [hstatement] at hvar
  cases hvar

theorem Carries.resolveImport (h : state.Carries link types) (hoffered : types link.offered.type)
    (hfits : link.Fits units) (hunit : units[index]? = some unit) {statement : Statement}
    (hstatement : unit.file.statements[number]? = some statement) :
    (resolveImport units index unit state (statement, number)).Carries link types := by
  cases statement with
  | var decl => exact h
  | expr value span => exact h
  | importNames decl =>
    unfold Checking.resolveImport
    dsimp only
    cases htarget : unit.import? number with
    | none => exact h
    | some target =>
      dsimp only
      split
      · exact h
      split
      · refine List.foldlRecOn (motive := fun state : Checking ↦ state.Carries link types) _ _ h ?_
        intro state hstate name _
        apply hstate.importName hoffered (ne_of_importNames hfits hunit hstatement)
        rintro rfl rfl
        obtain ⟨importer, -, himporter, -, -, hleads⟩ := hfits.imports
        obtain rfl := Option.some.inj (hunit.symm.trans himporter)
        exact Option.some.inj (htarget.symm.trans hleads)
      · exact h

theorem Carries.resolveImport_self (h : state.Carries link types)
    (hoffered : types link.offered.type) (hfits : link.Fits units)
    (hunit : units[link.importer]? = some unit) {decl : ImportDecl}
    (hstatement : unit.file.statements[link.statement]? = some (.importNames decl)) :
    (Checking.resolveImport units link.importer unit state
      (.importNames decl, link.statement)).Carries link (· = link.offered.type) := by
  obtain ⟨importer, imported, himporter, himport, hname, hleads⟩ := hfits.imports
  obtain rfl := Option.some.inj (hunit.symm.trans himporter)
  obtain rfl := Statement.importNames.inj (Option.some.inj (hstatement.symm.trans himport))
  obtain ⟨exporter, -, hexporter, hmodule, -⟩ := hfits.exports
  have hother := ne_of_importNames hfits hunit hstatement
  simp only [Checking.resolveImport, hleads, hexporter, hmodule, if_true]
  obtain ⟨name, hmem, htext⟩ := List.mem_map.1 hname
  apply foldl_of_mem (P := fun state : Checking ↦ state.Carries link types) hmem _ _ _ h
  · exact fun state hstate name _ ↦ hstate.importName hoffered hother (fun _ _ ↦ rfl) _ name
  · exact fun state hstate name _ ↦ hstate.importName rfl hother (fun _ _ ↦ rfl) _ name
  · exact fun state hstate ↦ hstate.importName_self hother _ htext

/-- Once the imports are resolved, the imported name has the type that is offered. -/
theorem Carries.resolveImports (h : state.Carries link types) (hoffered : types link.offered.type)
    (hfits : link.Fits units) :
    (state.resolveImports units).Carries link (· = link.offered.type) := by
  obtain ⟨importer, decl, himporter, himport, -⟩ := hfits.imports
  have hunit (kinds : BasicType → Prop) (hkinds : kinds link.offered.type) (state : Checking)
      (hstate : state.Carries link kinds) (entry : SourceUnit × ℕ) (hentry : entry ∈ units.zipIdx) :
      (entry.1.numbered.foldl (Checking.resolveImport units entry.2 entry.1) state).Carries link
        kinds := by
    refine List.foldlRecOn (motive := fun state : Checking ↦ state.Carries link kinds) _ _
      hstate ?_
    intro state hstate numbered hnumbered
    exact hstate.resolveImport hkinds hfits (List.mem_zipIdx_iff_getElem?.1 hentry)
      (List.mem_zipIdx_iff_getElem?.1 hnumbered)
  -- Until the statement of the import the name shows one of the types, and from then on this type.
  have hmem : (importer, link.importer) ∈ units.zipIdx := List.mem_zipIdx_iff_getElem?.2 himporter
  have hnumbered : (.importNames decl, link.statement) ∈ importer.numbered :=
    List.mem_zipIdx_iff_getElem?.2 himport
  apply foldl_of_mem (P := fun state : Checking ↦ state.Carries link types) hmem _ _ _ h
  · exact fun state hstate entry hentry ↦ hunit types hoffered state hstate entry hentry
  · exact fun state hstate entry hentry ↦
      hunit (· = link.offered.type) rfl state hstate entry hentry
  · intro state hstate
    apply foldl_of_mem (P := fun state : Checking ↦ state.Carries link types) hnumbered _ _ _ hstate
    · exact fun state hstate numbered hnumbered ↦ hstate.resolveImport hoffered hfits himporter
        (List.mem_zipIdx_iff_getElem?.1 hnumbered)
    · exact fun state hstate numbered hnumbered ↦ hstate.resolveImport rfl hfits himporter
        (List.mem_zipIdx_iff_getElem?.1 hnumbered)
    · exact fun state hstate ↦ hstate.resolveImport_self hoffered hfits himporter himport

/-! ## Statements are checked -/

/-- Only variables are given types by the check itself. -/
theorem shows_checkRound (hfits : link.Fits units) {type : BasicType}
    (h : link.Shows type state.scopes) (dialect : Dialect) (implicitAny : Bool) {round : Round}
    (hround : round ∈ rounds units) :
    link.Shows type (checkRound dialect implicitAny state round).scopes := by
  obtain ⟨index, statement, number⟩ := round
  obtain ⟨unit, hunit, -, hstatement⟩ := mem_rounds_iff.1 hround
  cases statement with
  | importNames decl => exact h
  | expr value span => exact h
  | var decl =>
    have hset := h.setType index number decl.name.text
      (decl.checkedType (decl.valueTyping (state.scopes.type? index)).1)
    rw [if_neg] at hset
    · exact hset
    · rintro ⟨rfl, rfl, -⟩
      obtain ⟨importer, imported, himporter, himport, -⟩ := hfits.imports
      obtain rfl := Option.some.inj (hunit.symm.trans himporter)
      rw [hstatement] at himport
      cases himport

theorem type?_stateAfter (hfits : link.Fits units)
    (h : (⟨.ofUnits units, [], []⟩ : Checking).Carries link fun _ ↦ True) (settings : Assignment)
    (dialect : Dialect) {before after : List Round} (hsplit : rounds units = before ++ after) :
    (stateAfter units settings dialect before).scopes.type? link.importer link.name =
      some link.offered.type := by
  obtain ⟨-, type, rfl, hshows⟩ := h.resolveImports trivial hfits
  apply ImportLink.Shows.type?
  refine List.foldlRecOn
    (motive := fun state : Checking ↦ link.Shows link.offered.type state.scopes) before _ hshows ?_
  intro state hstate round hround
  refine shows_checkRound hfits hstate dialect _ ?_
  rw [hsplit]
  exact List.mem_append_left _ hround

end Checking

/-! ## What the scopes hold at first -/

namespace SourceUnit

variable {unit : SourceUnit} {number target : ℕ} {name : String} {decl : VarDecl}

theorem symbols_eq_flatMap (unit : SourceUnit) (index : ℕ) : unit.symbols index =
    unit.numbered.flatMap fun entry ↦ entry.1.symbols index entry.2 :=
  rfl

theorem numbered_eq_append_cons {statement : Statement}
    (h : unit.file.statements[number]? = some statement) :
    unit.numbered = (unit.file.statements.take number).zipIdx ++ (statement, number) ::
      (unit.file.statements.drop (number + 1)).zipIdx (number + 1) := by
  obtain ⟨hlt, hget⟩ := List.getElem?_eq_some_iff.1 h
  conv_lhs => rw [numbered, ← List.take_append_drop number unit.file.statements,
    List.drop_eq_getElem_cons hlt, hget]
  rw [List.zipIdx_append, List.length_take, Nat.min_eq_left hlt.le, Nat.zero_add,
    List.zipIdx_cons]

theorem ImportsFirst.exists_head?_named (h : unit.ImportsFirst number name target) (index : ℕ) :
    ∃ span, (Scope.named name (unit.symbols index)).head? =
      some ⟨.imported, .any, false, index, number, span⟩ := by
  obtain ⟨decl, hstatement, hname⟩ := h.statement
  have hearlier : Scope.named name ((unit.file.statements.take number).zipIdx.flatMap
      fun entry ↦ entry.1.symbols index entry.2) = [] := by
    rw [Scope.named_eq_nil_iff, List.map_flatMap]
    intro hmem
    obtain ⟨⟨statement, earlier⟩, hentry, hdeclared⟩ := List.mem_flatMap.1 hmem
    have hplace := List.mem_zipIdx_iff_getElem?.1 hentry
    rw [Statement.map_fst_symbols] at hdeclared
    exact h.first statement (List.mem_of_getElem? hplace) hdeclared
  rw [symbols_eq_flatMap, numbered_eq_append_cons hstatement, List.flatMap_append,
    Scope.named_append, hearlier, List.nil_append, List.flatMap_cons, Scope.named_append]
  cases hsymbols : Scope.named name ((Statement.importNames decl).symbols index number) with
  | nil =>
    rw [Scope.named_eq_nil_iff, Statement.map_fst_symbols] at hsymbols
    exact (hsymbols hname).elim
  | cons symbol rest =>
    have hmem : symbol ∈ Scope.named name ((Statement.importNames decl).symbols index number) := by
      rw [hsymbols]
      exact List.mem_cons_self ..
    obtain ⟨ident, -, heq⟩ := List.mem_map.1 (Scope.mem_named.1 hmem)
    obtain ⟨-, rfl⟩ := Prod.mk.inj heq
    exact ⟨ident.span, rfl⟩

theorem ExportsOnce.find?_named (h : unit.ExportsOnce number decl) (index : ℕ) :
    (Scope.named decl.name.text (unit.symbols index)).find? Symbol.isOffered =
      some ⟨.declared decl.keyword, decl.declaredType, true, index, number, decl.name.span⟩ := by
  have hself : (⟨.declared decl.keyword, decl.declaredType, decl.exported, index, number,
      decl.name.span⟩ : Symbol) ∈ Scope.named decl.name.text (unit.symbols index) := by
    rw [Scope.mem_named, mem_symbols_iff]
    exact ⟨.var decl, number, h.statement, List.mem_singleton.2 rfl⟩
  cases hfind : (Scope.named decl.name.text (unit.symbols index)).find? Symbol.isOffered with
  | none =>
    have hnone := List.find?_eq_none.1 hfind _ hself
    rw [h.exported] at hnone
    exact (hnone rfl).elim
  | some symbol =>
    have hoffered := List.find?_some hfind
    have hmem := List.mem_of_find?_eq_some hfind
    rw [Scope.mem_named, mem_symbols_iff] at hmem
    obtain ⟨statement, other, hstatement, hsymbol⟩ := hmem
    cases statement with
    | expr value span => cases hsymbol
    | importNames imported =>
      obtain ⟨ident, -, heq⟩ := List.mem_map.1 hsymbol
      obtain ⟨-, rfl⟩ := Prod.mk.inj heq
      cases hoffered
    | var otherDecl =>
      obtain ⟨hname, rfl⟩ := Prod.mk.inj (List.mem_singleton.1 hsymbol)
      have hexported : otherDecl.exported = true := (Bool.and_eq_true_iff.1 hoffered).1
      obtain rfl := h.eq_of_exportsName hstatement
        (by simp [Statement.exportsName, hexported, hname])
      obtain rfl := Statement.var.inj (Option.some.inj (hstatement.symm.trans h.statement))
      rw [hexported]

end SourceUnit

namespace Checking

/-- Whether a name stands for a type in a unit whenever a statement comes up. -/
def StandsFor (units : List SourceUnit) (settings : Assignment) (dialect : Dialect) (index : ℕ)
    (name : String) (type : BasicType) : Prop :=
  ∀ before after, rounds units = before ++ after →
    (stateAfter units settings dialect before).scopes.type? index name = some type

/-- An imported name stands for the type that its declaration has beforehand. -/
theorem standsFor_of_import {units : List SourceUnit} {importer exporter : SourceUnit}
    {index target number place : ℕ} {decl : VarDecl} (himporter : units[index]? = some importer)
    (hexporter : units[target]? = some exporter)
    (himport : importer.ImportsFirst number decl.name.text target)
    (hexport : exporter.ExportsOnce place decl) (settings : Assignment) (dialect : Dialect) :
    StandsFor units settings dialect index decl.name.text decl.declaredType := by
  obtain ⟨span, hfirst⟩ := himport.exists_head?_named index
  let link : ImportLink := ⟨decl.name.text, index, number, target,
    ⟨.declared decl.keyword, decl.declaredType, true, target, place, decl.name.span⟩, span⟩
  have hfits : link.Fits units := by
    obtain ⟨imported, hstatement, hname⟩ := himport.statement
    exact ⟨⟨importer, imported, himporter, hstatement, hname, himport.leads⟩,
      ⟨exporter, decl, hexporter, hexport.isModule, rfl, hexport.statement⟩⟩
  have hcarries : (⟨.ofUnits units, [], []⟩ : Checking).Carries link fun _ ↦ True := by
    refine ⟨?_, .any, trivial, ?_⟩
    · rw [ImportLink.Offers, Scopes.own_ofUnits hexporter hexport.isModule]
      exact hexport.find?_named target
    · rw [ImportLink.Shows, Scopes.own_ofUnits himporter himport.isModule]
      exact hfirst
  exact fun before after hsplit ↦ type?_stateAfter hfits hcarries settings dialect hsplit

end Checking

/-! ## Types before and after a check -/

def Expr.isBareLiteral : Expr → Bool
  | .number _ _ => true
  | .string _ _ => true
  | .bool _ _ => true
  | _ => false

def Expr.isAccess : Expr → Bool
  | .member _ _ _ => true
  | .call _ _ _ => true
  | .paren inner _ => inner.isAccess
  | _ => false

theorem Expr.type_typing_of_isAccess (typeOf : String → Option BasicType) :
    (e : Expr) → e.isAccess = true → (e.typing typeOf).1.type = .any
  | .member _ _ _, _ => rfl
  | .call _ _ _, _ => rfl
  | .paren inner _, h => by
    rw [typing]
    exact type_typing_of_isAccess typeOf inner h
  | .number _ _, h => by cases h
  | .string _ _, h => by cases h
  | .bool _ _, h => by cases h
  | .name _, h => by cases h

namespace VarDecl

/-- Whether the value of a declaration has no say in its type, or says what can be told without
checking it. -/
def typedBeforehand (decl : VarDecl) : Bool :=
  decl.annotation.isSome ||
    match decl.init with
    | none => true
    | some init => !decl.ambient && (init.isBareLiteral || init.isAccess)

theorem declaredType_of_isLiteral_eq_false {decl : VarDecl} (hwritten : decl.annotation = none)
    (hliteral : ∀ init ∈ decl.init, init.isLiteral = false) : decl.declaredType = .any := by
  rw [declaredType, hwritten]
  cases hinit : decl.init with
  | none => rfl
  | some init =>
    have hinit := hliteral init hinit
    cases init <;> first | rfl | cases hinit

theorem checkedType_eq_declaredType {decl : VarDecl} (h : decl.typedBeforehand = true)
    (typeOf : String → Option BasicType) :
    decl.checkedType (decl.valueTyping typeOf).1 = decl.declaredType := by
  cases hwritten : decl.annotation with
  | some annotation => simp [checkedType, annotatedType, declaredType, hwritten]
  | none =>
    cases hinit : decl.init with
    | none => simp [checkedType, annotatedType, declaredType, valueTyping, hwritten, hinit]
    | some init =>
      have hvalue : decl.ambient = false ∧ (init.isBareLiteral = true ∨ init.isAccess = true) := by
        simpa [typedBeforehand, hwritten, hinit] using h
      obtain ⟨hambient, hbare | haccess⟩ := hvalue
      · have hliteral : decl.declaredType = (init.typing typeOf).1.type := by
          rw [declaredType, hwritten, hinit]
          cases init <;> first | rfl | cases hbare
        simp [checkedType, annotatedType, valueTyping, hwritten, hinit, hambient, hliteral]
      · have hany : decl.declaredType = .any := by
          rw [declaredType, hwritten, hinit]
          cases init <;> first | rfl | cases haccess
        have htype := init.type_typing_of_isAccess typeOf haccess
        simp [checkedType, annotatedType, valueTyping, hwritten, hinit, hambient, hany, htype]

end VarDecl

namespace Program

/-- In a program an imported name, if no earlier statement of the unit declares it and the module
exports it once, stands for one type all through the check, which is the one that the declaration
has beforehand.  The declaration ends up with that type if its value has no say in it or tells it by
its looks, and the type is `any` if there is neither an annotation nor a literal for a value. -/
theorem standsFor_declaredType_of_import {dialect : Dialect} {roots : List String}
    {settings : Assignment} {services : Services} {library : Library}
    {history : List Store.Operation} {program : Program} {after : Store}
    (hbuild : build dialect roots settings (Store.ofHistory services library history) =
      .ok (program, after))
    {importer exporter : SourceUnit} {index target number place : ℕ} {decl : VarDecl}
    (himporter : program.units[index]? = some importer)
    (hexporter : program.units[target]? = some exporter)
    (himport : importer.ImportsFirst number decl.name.text target)
    (hexport : exporter.ExportsOnce place decl) :
    Checking.StandsFor program.units settings dialect index decl.name.text decl.declaredType ∧
      (decl.typedBeforehand = true →
        program.checked.types.lookup (target, place) = some decl.declaredType) ∧
      (decl.annotation = none → (∀ init ∈ decl.init, init.isLiteral = false) →
        decl.declaredType = .any) := by
  have hbuilt := built_of_build (Store.keepsParsed_ofHistory services library history) hbuild
  refine ⟨?_, ?_, ?_⟩
  · exact Checking.standsFor_of_import himporter hexporter himport hexport settings dialect
  · intro htyped
    have hsource : exporter.isLibrary = false := hbuilt.isLibrary importer
      (List.mem_of_getElem? himporter) number target himport.leads exporter hexporter
    obtain ⟨before, -, -, htype⟩ := Checking.exists_lookup_types_check settings dialect hexporter
      hsource hexport.statement
    rw [hbuilt.checked, htype, decl.checkedType_eq_declaredType htyped]
  · exact VarDecl.declaredType_of_isLiteral_eq_false

theorem standsFor_declaredType_of_import_annotated :
    let store := Store.ofHistory .language .bundled
      [.add "a.ts" "let n = \"x\";\nexport let m: number = n;",
        .add "b.ts" "m;\nimport \x7b m \x7d from \"./a\";"]
    let settings := Assignment.empty.set "noLib" (.bool true)
    ∃ program after, build ⟨3⟩ ["b.ts"] settings store = .ok (program, after) ∧
      Checking.StandsFor program.units settings ⟨3⟩ 0 "m" .number ∧
      program.checked.types.lookup (1, 1) = some .number := by
  intro store settings
  have hfacts : ((build ⟨3⟩ ["b.ts"] settings store).toOption.any fun (program, _) ↦
      program.checked.types.lookup (1, 1) == some .number &&
      program.units[0]?.any (fun importer ↦ decide (importer.ImportsFirst 1 "m" 1)) &&
      program.units[1]?.any fun exporter ↦
        exporter.file.statements.countP (Statement.exportsName "m") == 1 &&
        exporter.file.statements[1]?.any fun
          | .var decl => decl.exported && decl.name.text == "m" && decl.annotation.isSome
          | _ => false) = true := by
    decide +kernel
  obtain ⟨⟨program, after⟩, hbuild, hfacts⟩ := exists_ok_of_any hfacts
  simp only [Bool.and_eq_true, beq_iff_eq, Option.any_eq_true, decide_eq_true_eq] at hfacts
  obtain ⟨⟨htype, importer, himporter, himport⟩, exporter, hexporter, honce, statement, hstatement,
    hdecl⟩ := hfacts
  cases statement with
  | importNames decl => cases hdecl
  | expr value span => cases hdecl
  | var decl =>
    simp only [Bool.and_eq_true, beq_iff_eq] at hdecl
    obtain ⟨⟨hexported, hname⟩, hwritten⟩ := hdecl
    rw [← hname] at himport honce
    obtain ⟨hstands, htyped, -⟩ := standsFor_declaredType_of_import hbuild himporter hexporter
      himport ⟨hstatement, hexported, honce⟩
    have hsame : some decl.declaredType = some .number := by
      rw [← htype, htyped (by simp [VarDecl.typedBeforehand, hwritten])]
    rw [Option.some.inj hsame, hname] at hstands
    exact ⟨program, after, hbuild, hstands, htype⟩

/-- The type that an imported name stands for need not be the one that the declaration ends up with
if the value is a name, nor if the importing unit has declared the name before. -/
theorem type_lost_of_import_of_name :
    let store := Store.ofHistory .language .bundled
      [.add "a.ts" "let n = 1;\nexport const m = n;\nexport const k: number = 1;",
        .add "b.ts" "import \x7b m \x7d from \"./a\";\nlet s: string = m;",
        .add "c.ts" "let k = \"one\";\nimport \x7b k \x7d from \"./a\";\nk;"]
    let settings := Assignment.empty.set "noLib" (.bool true)
    ∃ program after importer other exporter,
      build ⟨3⟩ ["b.ts", "c.ts"] settings store = .ok (program, after) ∧
      program.units[0]? = some importer ∧ program.units[1]? = some other ∧
      program.units[2]? = some exporter ∧ importer.ImportsFirst 0 "m" 2 ∧
      other.file.statements[1]?.any (Statement.importsName "k") = true ∧
      other.import? 1 = some 2 ∧
      exporter.file.statements.map Statement.declaredNames = [["n"], ["m"], ["k"]] ∧
      exporter.file.statements[1]?.any (Statement.exportsName "m") = true ∧
      exporter.file.statements[2]?.any (Statement.exportsName "k") = true ∧
      (let state := Checking.stateAfter program.units settings ⟨3⟩
        ((Checking.rounds program.units).take 1)
      state.scopes.type? 0 "m" = some .any ∧
        program.checked.types.lookup (2, 1) = some .number) ∧
      (let state := Checking.stateAfter program.units settings ⟨3⟩
        ((Checking.rounds program.units).take 4)
      state.scopes.type? 1 "k" = some .string ∧
        program.checked.types.lookup (2, 2) = some .number) ∧
      program.semantic.all (fun diagnostic ↦ diagnostic.location.all fun location ↦
        location.file ≠ "b.ts") = true := by
  intro store settings
  have hfacts : ((build ⟨3⟩ ["b.ts", "c.ts"] settings store).toOption.any fun (program, _) ↦
      program.units[0]?.any fun importer ↦ program.units[1]?.any fun other ↦
      program.units[2]?.any fun exporter ↦ decide (
        importer.ImportsFirst 0 "m" 2 ∧
        other.file.statements[1]?.any (Statement.importsName "k") = true ∧
        other.import? 1 = some 2 ∧
        exporter.file.statements.map Statement.declaredNames = [["n"], ["m"], ["k"]] ∧
        exporter.file.statements[1]?.any (Statement.exportsName "m") = true ∧
        exporter.file.statements[2]?.any (Statement.exportsName "k") = true ∧
        (let state := Checking.stateAfter program.units settings ⟨3⟩
          ((Checking.rounds program.units).take 1)
        state.scopes.type? 0 "m" = some .any ∧
          program.checked.types.lookup (2, 1) = some .number) ∧
        (let state := Checking.stateAfter program.units settings ⟨3⟩
          ((Checking.rounds program.units).take 4)
        state.scopes.type? 1 "k" = some .string ∧
          program.checked.types.lookup (2, 2) = some .number) ∧
        program.semantic.all (fun diagnostic ↦ diagnostic.location.all fun location ↦
          location.file ≠ "b.ts") = true)) = true := by
    decide +kernel
  obtain ⟨⟨program, after⟩, hbuild, hfacts⟩ := exists_ok_of_any hfacts
  obtain ⟨importer, himporter, hfacts⟩ := (Option.any_eq_true _ _).1 hfacts
  obtain ⟨other, hother, hfacts⟩ := (Option.any_eq_true _ _).1 hfacts
  obtain ⟨exporter, hexporter, hfacts⟩ := (Option.any_eq_true _ _).1 hfacts
  exact ⟨program, after, importer, other, exporter, hbuild, himporter, hother, hexporter,
    of_decide_eq_true hfacts⟩

end Program

end VersionSweep
