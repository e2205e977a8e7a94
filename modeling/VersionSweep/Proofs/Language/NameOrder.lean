import VersionSweep.Proofs.Language.SpanNesting
import VersionSweep.Proofs.Project.ParsedUnits

/-!
# Names in the order of the text

What a statement holds lies within it, and the statements of a file stand one behind the other.  So
whatever is picked from the statements in turn stands in the order of the text, no two at one place:
the names that are declared, and the names that are looked up.
-/

namespace VersionSweep

namespace Span.Holds

variable {span : Span} {parts : List Span}

theorem sublist (h : span.Holds parts) {others : List Span} (hsub : others.Sublist parts) :
    span.Holds others :=
  ⟨fun part hpart ↦ h.inside part (hsub.subset hpart), h.inOrder.sublist hsub⟩

theorem self (span : Span) : span.Holds [span] :=
  ⟨by simp, List.pairwise_singleton ..⟩

/-- A span holds what its parts hold, part after part. -/
theorem flatMap {α : Type*} {pieces : List α} {place : α → Span} {inner : α → List Span}
    (h : span.Holds (pieces.map place))
    (hinner : ∀ piece ∈ pieces, (place piece).Holds (inner piece)) :
    span.Holds (pieces.flatMap inner) := by
  refine ⟨fun part hpart ↦ ?_, List.pairwise_flatMap.2 ⟨fun piece hpiece ↦
    (hinner piece hpiece).inOrder, ?_⟩⟩
  · obtain ⟨piece, hpiece, hpart⟩ := List.mem_flatMap.1 hpart
    obtain ⟨hstart, hstop⟩ := h.inside _ (List.mem_map_of_mem hpiece)
    obtain ⟨hstart', hstop'⟩ := (hinner piece hpiece).inside part hpart
    exact ⟨hstart.trans hstart', hstop'.trans hstop⟩
  · refine (List.pairwise_map.1 h.inOrder).imp_of_mem ?_
    intro first second hfirst hsecond hle part hpart other hother
    have hstop := ((hinner first hfirst).inside part hpart).2
    have hstart := ((hinner second hsecond).inside other hother).1
    exact hstop.trans (hle.trans hstart)

end Span.Holds

/-! ## Names in expressions -/

def Expr.name? : Expr → Option Ident
  | .name ident => some ident
  | _ => none

/-- The names that are looked up in an expression, at any depth. -/
def Expr.names (e : Expr) : List Ident :=
  e.nodes.filterMap Expr.name?

namespace Expr

variable (inner object callee : Expr) (property ident : Ident) (arguments : List Expr)
  (text : String) (value : Bool) (span : Span)

@[simp] theorem names_number : (Expr.number text span).names = [] := by
  simp [names, nodes, name?]

@[simp] theorem names_string : (Expr.string text span).names = [] := by
  simp [names, nodes, name?]

@[simp] theorem names_bool : (Expr.bool value span).names = [] := by
  simp [names, nodes, name?]

@[simp] theorem names_name : (Expr.name ident).names = [ident] := by
  simp [names, nodes, name?]

@[simp] theorem names_paren : (Expr.paren inner span).names = inner.names := by
  rw [names, nodes, List.filterMap_cons_none rfl, names]

@[simp] theorem names_member : (Expr.member object property span).names = object.names := by
  rw [names, nodes, List.filterMap_cons_none rfl, names]

theorem nodesOfAll_eq_flatMap : nodesOfAll arguments = arguments.flatMap nodes := by
  induction arguments with
  | nil => rfl
  | cons argument rest ih => rw [nodesOfAll, ih, List.flatMap_cons]

@[simp] theorem names_call :
    (Expr.call callee arguments span).names = (callee :: arguments).flatMap names := by
  rw [List.flatMap_cons, names, nodes, List.filterMap_cons_none rfl, List.filterMap_append,
    nodesOfAll_eq_flatMap, List.filterMap_flatMap]
  rfl

end Expr

variable {T : Token → Prop} {cs : List Char}

theorem Expr.Built.of_of_mem_names {e : Expr} (h : e.Built T) : ∀ name ∈ e.names, name.Of T := by
  intro name hname
  obtain ⟨node, hnode, hsome⟩ := List.mem_filterMap.1 hname
  have hbuilt := e.built_of_mem_nodes h node hnode
  cases node with
  | name ident => exact Option.some.inj hsome ▸ hbuilt
  | number | string | bool | paren | member | call => cases hsome

theorem Span.Holds.flatMap_names {span : Span} {es : List Expr}
    (h : span.Holds (es.map Expr.span))
    (hnames : ∀ e ∈ es, e.span.Holds (e.names.map Ident.span)) :
    span.Holds ((es.flatMap Expr.names).map Ident.span) := by
  rw [List.map_flatMap]
  exact h.flatMap hnames

/-- The names of an expression stand within it in order. -/
theorem Expr.Built.holds_names : {e : Expr} → e.Built T → e.span.Holds (e.names.map Ident.span)
  | .number _ _, _ => by simpa using ⟨by simp, .nil⟩
  | .string _ _, _ => by simpa using ⟨by simp, .nil⟩
  | .bool _ _, _ => by simpa using ⟨by simp, .nil⟩
  | .name ident, _ => by
    rw [names_name]
    exact .self ident.span
  | .paren inner span, h => by
    have hinner : span.Holds ([inner].map Expr.span) := h.2.holds
    rw [names_paren, ← List.flatMap_singleton Expr.names inner]
    exact hinner.flatMap_names (by simpa using h.1.holds_names)
  | .member object property span, h => by
    have hobject : span.Holds ([object].map Expr.span) := h.2.2.holds.sublist (by simp)
    rw [names_member, ← List.flatMap_singleton Expr.names object]
    exact hobject.flatMap_names (by simpa using h.1.holds_names)
  | .call callee arguments span, h => by
    have harguments := Expr.allBuilt_iff.1 h.2.1
    have hparts : span.Holds ((callee :: arguments).map Expr.span) := h.2.2.holds
    rw [names_call]
    exact hparts.flatMap_names (List.forall_mem_cons.2 ⟨h.1.holds_names,
      fun e he ↦ (harguments e he).holds_names⟩)

/-! ## Names in statements -/

namespace Statement

def declared : Statement → List Ident
  | .var decl => [decl.name]
  | .importNames decl => decl.names
  | .expr _ _ => []

def annotation? : Statement → Option Ident
  | .var decl => decl.annotation
  | _ => none

/-- The expression that counts in a statement: none of a variable that exists elsewhere. -/
def value? : Statement → Option Expr
  | .var decl => if decl.ambient then none else decl.init
  | .importNames _ => none
  | .expr value _ => some value

/-- The names that a statement looks up. -/
def used (statement : Statement) : List Ident :=
  statement.value?.toList.flatMap Expr.names

/-- All that a statement may have to look up: the annotation and the names. -/
def lookedUp (statement : Statement) : List Ident :=
  statement.annotation?.toList ++ statement.used

theorem Built.holds_declared {statement : Statement} (h : statement.Built T) :
    statement.span.Holds (statement.declared.map Ident.span) := by
  refine h.holds.sublist ?_
  cases statement with
  | var decl => simp [declared, parts]
  | importNames decl => simp [declared, parts]
  | expr value span => simp [declared, parts]

theorem Built.of_of_mem_declared {statement : Statement} (h : statement.Built T) :
    ∀ name ∈ statement.declared, name.Of T := by
  cases statement with
  | var decl => simpa [declared] using h.name
  | importNames decl => exact h.names
  | expr value span => simp [declared]

theorem Built.annotation {statement : Statement} (h : statement.Built T) :
    ∀ name ∈ statement.annotation?, name.Of T := by
  cases statement with
  | var decl => exact VarDecl.Built.annotation h
  | importNames decl => simp [annotation?]
  | expr value span => simp [annotation?]

theorem Built.value {statement : Statement} (h : statement.Built T) :
    ∀ value ∈ statement.value?, value.Built T := by
  cases statement with
  | var decl =>
    intro value hvalue
    rw [value?] at hvalue
    split at hvalue
    · cases hvalue
    · exact h.init value hvalue
  | importNames decl => simp [value?]
  | expr value span => simpa [value?] using h.1

theorem Built.of_of_mem_lookedUp {statement : Statement} (h : statement.Built T) :
    ∀ name ∈ statement.lookedUp, name.Of T := by
  intro name hname
  rcases List.mem_append.1 hname with hname | hname
  · exact h.annotation name (Option.mem_toList.1 hname)
  · obtain ⟨value, hvalue, hname⟩ := List.mem_flatMap.1 hname
    exact (h.value value (Option.mem_toList.1 hvalue)).of_of_mem_names name hname

theorem Built.holds_lookedUp {statement : Statement} (h : statement.Built T) :
    statement.span.Holds (statement.lookedUp.map Ident.span) := by
  have hparts : statement.span.Holds
      (statement.annotation?.toList.map Ident.span ++ statement.value?.toList.map Expr.span) := by
    refine h.holds.sublist ?_
    cases statement with
    | var decl =>
      cases hannotation : decl.annotation <;> cases hinit : decl.init <;>
        cases hambient : decl.ambient <;>
        simp [annotation?, value?, parts, hannotation, hinit, hambient]
    | importNames decl => simp [annotation?, value?]
    | expr value span => simp [annotation?, value?, parts]
  let pieces : List (Span × List Ident) :=
    statement.annotation?.toList.map (fun name ↦ (name.span, [name])) ++
      statement.value?.toList.map fun value ↦ (value.span, value.names)
  have hnames : statement.lookedUp.map Ident.span =
      pieces.flatMap fun piece ↦ piece.2.map Ident.span := by
    simp only [pieces, lookedUp, used]
    cases statement.annotation? <;> cases statement.value? <;> simp
  have hpieces : statement.span.Holds (pieces.map Prod.fst) := by
    simpa [pieces, Function.comp_def] using hparts
  rw [hnames]
  refine hpieces.flatMap ?_
  simp only [pieces, List.forall_mem_append, List.forall_mem_map]
  exact ⟨fun name _ ↦ .self name.span,
    fun value hvalue ↦ (h.value value (Option.mem_toList.1 hvalue)).holds_names⟩

end Statement

/-! ## Names in files -/

namespace SourceFile

variable {file : SourceFile}

theorem Parsed.built (h : file.Parsed) : ∀ statement ∈ file.statements,
    statement.Built (Token.StandsIn file.text.toList) := by
  obtain ⟨target, heq⟩ := h
  have hsound := sound_parse file.name file.text target
  rw [← heq] at hsound
  exact hsound.statements

/-- Names that are picked from the statements of a file in turn begin one behind the other. -/
theorem Parsed.pairwise_flatMap (h : file.Parsed) {pick : Statement → List Ident}
    (hholds : ∀ statement ∈ file.statements,
      statement.span.Holds ((pick statement).map Ident.span))
    (hof : ∀ statement ∈ file.statements, ∀ name ∈ pick statement,
      name.Of (Token.StandsIn file.text.toList)) :
    (file.statements.flatMap pick).Pairwise
      fun first second ↦ first.span.start < second.span.start := by
  have hinOrder : file.statements.Pairwise
      fun first second ↦ first.span.stop ≤ second.span.start := by
    obtain ⟨target, heq⟩ := h
    rw [heq]
    exact Parsing.statements_inOrder (Stream.orderly_ofScan file.text.toList)
  refine List.pairwise_flatMap.2 ⟨fun statement hstatement ↦ ?_, hinOrder.imp_of_mem ?_⟩
  · refine (List.pairwise_map.1 (hholds statement hstatement).inOrder).imp_of_mem ?_
    intro first second hfirst _ hle
    exact Nat.lt_of_lt_of_le (hof statement hstatement first hfirst).lt hle
  · intro statement other hstatement hother hle first hfirst second hsecond
    have hstop := ((hholds statement hstatement).inside _ (List.mem_map_of_mem hfirst)).2
    have hstart := ((hholds other hother).inside _ (List.mem_map_of_mem hsecond)).1
    have hlt := (hof statement hstatement first hfirst).lt
    omega

theorem Parsed.pairwise_declared (h : file.Parsed) :
    (file.statements.flatMap Statement.declared).Pairwise
      fun first second ↦ first.span.start < second.span.start :=
  h.pairwise_flatMap (fun statement hstatement ↦ (h.built statement hstatement).holds_declared)
    fun statement hstatement ↦ (h.built statement hstatement).of_of_mem_declared

theorem Parsed.pairwise_lookedUp (h : file.Parsed) :
    (file.statements.flatMap Statement.lookedUp).Pairwise
      fun first second ↦ first.span.start < second.span.start :=
  h.pairwise_flatMap (fun statement hstatement ↦ (h.built statement hstatement).holds_lookedUp)
    fun statement hstatement ↦ (h.built statement hstatement).of_of_mem_lookedUp

end SourceFile

end VersionSweep
