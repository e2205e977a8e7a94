import VersionSweep.Proofs.Language.Nesting
import VersionSweep.Proofs.Language.SourceSpans

/-!
# Nesting of spans

The span of a statement or of an expression holds the spans of its parts, one behind the other, and
the spans of the statements of a file stand one behind the other as well.  All spans begin and stop
between characters of the text, so each can be cut out, `SourceFile.spans_parse`.
-/

namespace VersionSweep

namespace Span

structure Holds (span : Span) (parts : List Span) : Prop where
  inside : ∀ part ∈ parts, span.start ≤ part.start ∧ part.stop ≤ span.stop
  inOrder : parts.Pairwise fun first second ↦ first.stop ≤ second.start

variable {low high : Nat} {parts : List Span}

theorem Row.inside (h : Row high low parts) :
    ∀ part ∈ parts, low ≤ part.start ∧ part.stop ≤ high := by
  induction parts generalizing low with
  | nil => simp
  | cons first rest ih =>
    obtain ⟨hlow, hle, hrest⟩ := h
    refine List.forall_mem_cons.2 ⟨⟨hlow, hrest.le⟩, fun part hpart ↦ ?_⟩
    exact (ih hrest part hpart).imp_left (Nat.le_trans (Nat.le_trans hlow hle))

theorem Row.inOrder (h : Row high low parts) :
    parts.Pairwise fun first second ↦ first.stop ≤ second.start := by
  induction parts generalizing low with
  | nil => exact .nil
  | cons first rest ih =>
    obtain ⟨-, -, hrest⟩ := h
    exact .cons (fun part hpart ↦ (hrest.inside part hpart).1) (ih hrest)

theorem Frames.holds {T : Token → Prop} {span : Span} (h : span.Frames T parts) :
    span.Holds parts :=
  ⟨h.row.inside, h.row.inOrder⟩

end Span

mutual

def Expr.nodes : Expr → List Expr
  | .number text span => [.number text span]
  | .string value span => [.string value span]
  | .bool value span => [.bool value span]
  | .name ident => [.name ident]
  | .paren inner span => .paren inner span :: inner.nodes
  | .member object property span => .member object property span :: object.nodes
  | .call callee arguments span =>
    .call callee arguments span :: (callee.nodes ++ Expr.nodesOfAll arguments)

def Expr.nodesOfAll : List Expr → List Expr
  | [] => []
  | e :: rest => e.nodes ++ Expr.nodesOfAll rest

end

def Expr.parts : Expr → List Span
  | .paren inner _ => [inner.span]
  | .member object property _ => [object.span, property.span]
  | .call callee arguments _ => callee.span :: arguments.map Expr.span
  | _ => []

def Statement.parts : Statement → List Span
  | .var decl => decl.name.span ::
    ((decl.annotation.map Ident.span).toList ++ (decl.init.map Expr.span).toList)
  | .importNames decl => decl.names.map Ident.span ++ [decl.specifierSpan]
  | .expr value _ => [value.span]

section Built

variable {cs : List Char} {T : Token → Prop}

mutual

theorem Expr.built_of_mem_nodes :
    (e : Expr) → e.Built T → ∀ node ∈ e.nodes, node.Built T
  | .number _ _, h, node, hnode => by
    rw [nodes, List.mem_singleton] at hnode
    exact hnode ▸ h
  | .string _ _, h, node, hnode => by
    rw [nodes, List.mem_singleton] at hnode
    exact hnode ▸ h
  | .bool _ _, h, node, hnode => by
    rw [nodes, List.mem_singleton] at hnode
    exact hnode ▸ h
  | .name _, h, node, hnode => by
    rw [nodes, List.mem_singleton] at hnode
    exact hnode ▸ h
  | .paren inner _, h, node, hnode => by
    rw [nodes] at hnode
    obtain rfl | hnode := List.mem_cons.1 hnode
    · exact h
    · exact inner.built_of_mem_nodes h.1 node hnode
  | .member object _ _, h, node, hnode => by
    rw [nodes] at hnode
    obtain rfl | hnode := List.mem_cons.1 hnode
    · exact h
    · exact object.built_of_mem_nodes h.1 node hnode
  | .call callee arguments _, h, node, hnode => by
    rw [nodes] at hnode
    obtain rfl | hnode := List.mem_cons.1 hnode
    · exact h
    obtain hnode | hnode := List.mem_append.1 hnode
    · exact callee.built_of_mem_nodes h.1 node hnode
    · exact Expr.built_of_mem_nodesOfAll arguments h.2.1 node hnode

theorem Expr.built_of_mem_nodesOfAll :
    (es : List Expr) → Expr.AllBuilt T es → ∀ node ∈ Expr.nodesOfAll es, node.Built T
  | [], _, node, hnode => by
    rw [nodesOfAll] at hnode
    cases hnode
  | e :: rest, h, node, hnode => by
    rw [nodesOfAll] at hnode
    obtain hnode | hnode := List.mem_append.1 hnode
    · exact e.built_of_mem_nodes h.1 node hnode
    · exact Expr.built_of_mem_nodesOfAll rest h.2 node hnode

end

theorem Expr.Built.holds {e : Expr} (h : e.Built T) : e.span.Holds e.parts := by
  cases e with
  | number | string | bool | name => exact ⟨by simp [parts], .nil⟩
  | paren inner span => exact h.2.holds
  | member object property span => exact h.2.2.holds
  | call callee arguments span => exact h.2.2.holds

theorem Statement.Built.holds {statement : Statement} (h : statement.Built T) :
    statement.span.Holds statement.parts := by
  cases statement with
  | var decl => exact h.frames.holds
  | importNames decl => exact h.frames.holds
  | expr value span => exact h.2.holds

theorem Expr.Built.within_of_mem_parts {e : Expr} (h : e.Built (Token.StandsIn cs)) :
    ∀ part ∈ e.parts, part.Within cs := by
  cases e with
  | number | string | bool | name => simp [parts]
  | paren inner span => simpa [parts] using h.1.within
  | member object property span => simpa [parts] using ⟨h.1.within, h.2.1.within⟩
  | call callee arguments span =>
    have harguments := Expr.allBuilt_iff.1 h.2.1
    simpa [parts] using ⟨h.1.within, fun e he ↦ (harguments e he).within⟩

theorem Statement.Built.within_of_mem_parts {statement : Statement}
    (h : statement.Built (Token.StandsIn cs)) : ∀ part ∈ statement.parts, part.Within cs := by
  cases statement with
  | var decl =>
    intro part hpart
    simp only [parts, List.mem_cons, List.mem_append, Option.mem_toList, Option.map_eq_some_iff]
      at hpart
    obtain rfl | ⟨written, hwritten, rfl⟩ | ⟨init, hinit, rfl⟩ := hpart
    · exact h.name.within
    · exact (h.annotation written hwritten).within
    · exact (h.init init hinit).within
  | importNames decl =>
    intro part hpart
    simp only [parts, List.mem_append, List.mem_map, List.mem_singleton] at hpart
    obtain ⟨name, hname, rfl⟩ | rfl := hpart
    · exact (h.names name hname).within
    · obtain ⟨token, htoken, -, -, hspan⟩ := h.specifier
      exact hspan ▸ htoken.within
  | expr value span => simpa [parts] using h.1.within

theorem Statement.Built.within {statement : Statement}
    (h : statement.Built (Token.StandsIn cs)) : statement.span.Within cs := by
  cases statement with
  | var decl => exact h.frames.within
  | importNames decl => exact h.frames.within
  | expr value span => exact h.2.within

theorem Statement.Built.expression {statement : Statement} (h : statement.Built T) :
    ∀ e ∈ statement.expression?, e.Built T := by
  cases statement with
  | var decl => exact h.init
  | importNames decl => simp [expression?]
  | expr value span =>
    rintro _ ⟨⟩
    exact h.1

theorem Ident.Of.lt {ident : Ident} (h : ident.Of (Token.StandsIn cs)) :
    ident.span.start < ident.span.stop := by
  obtain ⟨token, htoken, hkind, -, hspan⟩ := h
  exact hspan ▸ htoken.lt (by simp [hkind])

/-- A node that holds a part takes up some of the text if the part does. -/
theorem Span.Holds.lt {span part : Span} {parts : List Span} (h : span.Holds parts)
    (hpart : part ∈ parts) (hlt : part.start < part.stop) : span.start < span.stop := by
  obtain ⟨hstart, hstop⟩ := h.inside part hpart
  omega

theorem Expr.Built.lt : {e : Expr} → e.Built (Token.StandsIn cs) → e.span.start < e.span.stop
  | .number _ _, ⟨token, htoken, hkind, _, hspan⟩ => hspan ▸ htoken.lt (by simp [hkind])
  | .string _ _, ⟨token, htoken, hkind, _, hspan⟩ => hspan ▸ htoken.lt (by simp [hkind])
  | .bool _ _, ⟨token, htoken, hkind, hspan⟩ => hspan ▸ htoken.lt (by simp [hkind])
  | .name _, h => Ident.Of.lt h
  | .paren _ _, h => h.2.holds.lt (by simp) h.1.lt
  | .member _ _ _, h => h.2.2.holds.lt (by simp) h.1.lt
  | .call _ _ _, h => h.2.2.holds.lt (by simp) h.1.lt

theorem Statement.Built.lt {statement : Statement} (h : statement.Built (Token.StandsIn cs)) :
    statement.span.start < statement.span.stop := by
  cases statement with
  | var decl => exact h.frames.holds.lt (by simp) h.name.lt
  | importNames decl =>
    obtain ⟨token, htoken, hkind, -, hspan⟩ := h.specifier
    have hlt : decl.specifierSpan.start < decl.specifierSpan.stop :=
      hspan ▸ htoken.lt (by simp [hkind])
    exact h.frames.holds.lt (by simp) hlt
  | expr value span => exact h.2.holds.lt (by simp) h.1.lt

end Built

namespace Parsing

open Reader

variable {T : Token → Prop} {s rest : Stream} {start : Nat} {st : Statement}

theorem stop_eq_of_terminator {stop : Nat} (h : terminator s = .read stop rest) :
    stop = rest.lastStop := by
  unfold terminator at h
  split at h
  · rename_i hend
    obtain ⟨rfl, rfl⟩ := Reading.read.inj h
    exact (Stream.lastStop_skip (Stream.ne_nil_of_isPunctuator hend)).symm
  · split at h
    · obtain ⟨rfl, rfl⟩ := Reading.read.inj h
      rfl
    · cases h

theorem span_varDeclRest {exported ambient : Bool} {keyword : VarKeyword}
    (h : varDeclRest start exported ambient keyword s = .read st rest) :
    st.span = ⟨start, rest.lastStop⟩ := by
  obtain ⟨name, s₁, -, h⟩ := bind_eq_read h
  obtain ⟨written, s₂, -, h⟩ := bind_eq_read h
  obtain ⟨init, s₃, -, h⟩ := bind_eq_read h
  obtain ⟨stop, s₄, hstop, h⟩ := bind_eq_read h
  obtain ⟨rfl, rfl⟩ := Reading.read.inj h
  rw [← stop_eq_of_terminator hstop]
  rfl

theorem span_importRest (h : importRest start s = .read st rest) :
    st.span = ⟨start, rest.lastStop⟩ := by
  obtain ⟨_, s₁, -, h⟩ := bind_eq_read h
  obtain ⟨names, s₂, -, h⟩ := bind_eq_read h
  obtain ⟨_, s₃, -, h⟩ := bind_eq_read h
  obtain ⟨_, s₄, -, h⟩ := bind_eq_read h
  obtain ⟨name, s₅, -, h⟩ := bind_eq_read h
  obtain ⟨stop, s₆, hstop, h⟩ := bind_eq_read h
  obtain ⟨rfl, rfl⟩ := Reading.read.inj h
  rw [← stop_eq_of_terminator hstop]
  rfl

theorem span_exprStatement (h : exprStatement start s = .read st rest) :
    st.span = ⟨start, rest.lastStop⟩ := by
  obtain ⟨value, s₁, -, h⟩ := bind_eq_read h
  obtain ⟨stop, s₂, hstop, h⟩ := bind_eq_read h
  obtain ⟨rfl, rfl⟩ := Reading.read.inj h
  rw [← stop_eq_of_terminator hstop]
  rfl

theorem span_otherStatement (h : otherStatement start s = .read st rest) :
    st.span = ⟨start, rest.lastStop⟩ := by
  obtain ⟨exported, s₁, -, h⟩ := bind_eq_read h
  obtain ⟨ambient, s₂, -, h⟩ := bind_eq_read h
  unfold declarationOrExpression at h
  split at h
  · exact span_varDeclRest h
  · split at h
    · cases h
    · exact span_exprStatement h

/-- A statement reaches from the next token to where its reading stopped. -/
theorem span_statement (h : statement s = .read (some st) rest) :
    st.span = ⟨s.next.span.start, rest.lastStop⟩ := by
  unfold statement at h
  split at h
  · cases h
  · split at h
    · obtain ⟨found, hfound, ⟨⟩⟩ := map_eq_read h
      exact span_importRest hfound
    · obtain ⟨found, hfound, ⟨⟩⟩ := map_eq_read h
      exact span_otherStatement hfound

theorem span_of_mem_step (h : st ∈ (step s).1.statement?) :
    st.span = ⟨s.next.span.start, (step s).2.lastStop⟩ := by
  unfold step at h ⊢
  split at h
  · rename_i value rest hread
    obtain rfl : value = st := Option.some.inj h
    exact span_statement hread
  · cases h
  · cases h

/-- The statements that are still read begin no further back than the reading has come. -/
theorem lastStop_le_of_mem_items (h : s.Orderly T) :
    ∀ st ∈ (items s).filterMap Item.statement?, s.lastStop ≤ st.span.start := by
  fun_induction items s with
  | case1 s hs => simp
  | case2 s hs ih =>
    intro st hst
    obtain ⟨item, hitem, hst⟩ := List.mem_filterMap.1 hst
    obtain rfl | hitem := List.mem_cons.1 hitem
    · rw [span_of_mem_step hst]
      exact h.lastStop_le_next
    · have hrest := (leaves_step s).orderly h
      have hlater := ih hrest st (List.mem_filterMap.2 ⟨item, hitem, hst⟩)
      exact Nat.le_trans ((leaves_step s).lastStop_le h) hlater

theorem statements_inOrder (h : s.Orderly T) :
    ((items s).filterMap Item.statement?).Pairwise
      fun first second ↦ first.span.stop ≤ second.span.start := by
  fun_induction items s with
  | case1 s hs => exact .nil
  | case2 s hs ih =>
    have hrest := (leaves_step s).orderly h
    rw [List.filterMap_cons]
    split
    · exact ih hrest
    · rename_i st hst
      refine .cons (fun second hsecond ↦ ?_) (ih hrest)
      rw [span_of_mem_step hst]
      exact lastStop_le_of_mem_items hrest second hsecond

end Parsing

namespace SourceFile

structure Cuts (file : SourceFile) (span : Span) : Prop where
  le : span.start ≤ span.stop
  stop_le : span.stop ≤ file.text.utf8ByteSize
  start_isValid : String.Pos.Raw.IsValid file.text ⟨span.start⟩
  stop_isValid : String.Pos.Raw.IsValid file.text ⟨span.stop⟩
  slice : ∃ before after, file.text = before ++ file.slice span ++ after ∧
    before.utf8ByteSize = span.start ∧ (before ++ file.slice span).utf8ByteSize = span.stop

/-- The spans of the statements of a file and of all expressions in them, each with the spans of its
parts. -/
def nodes (file : SourceFile) : List (Span × List Span) :=
  (file.statements.map fun statement ↦ (statement.span, statement.parts)) ++
    file.expressions.flatMap fun e ↦ e.nodes.map fun node ↦ (node.span, node.parts)

variable {file : SourceFile} {span : Span}

theorem cuts_of_within (h : span.Within file.text.toList) : file.Cuts span where
  le := h.le
  stop_le := Text.utf8ByteSize_eq_byteLength file.text ▸ h.stop.le_byteLength
  start_isValid := (Text.boundary_iff_isValid _ _).1 h.start
  stop_isValid := (Text.boundary_iff_isValid _ _).1 h.stop
  slice := by
    obtain ⟨before, piece, after, htext, hstart, hstop⟩ := h.exists_append
    have hslice : file.slice span = String.ofList piece := by
      rw [slice, htext, ← hstart, ← hstop, Text.between_append]
    refine ⟨String.ofList before, String.ofList after, ?_, ?_, ?_⟩
    · rw [hslice, ← String.ofList_append, ← String.ofList_append, ← htext, String.ofList_toList]
    · rw [Text.utf8ByteSize_ofList, hstart]
    · rw [hslice, ← String.ofList_append, Text.utf8ByteSize_ofList, hstop]

theorem Sound.built_of_mem_expressions (h : file.Sound) :
    ∀ e ∈ file.expressions, e.Built (Token.StandsIn file.text.toList) := by
  intro e he
  obtain ⟨statement, hstatement, he⟩ := List.mem_filterMap.1 he
  exact (h.statements statement hstatement).expression e he

/-- Each node of a sound file holds its parts, and all of them can be cut out of the text. -/
theorem Sound.holds_of_mem_nodes (h : file.Sound) :
    ∀ node ∈ file.nodes, node.1.Holds node.2 ∧ ∀ span ∈ node.1 :: node.2, file.Cuts span := by
  intro node hnode
  rw [nodes, List.mem_append, List.mem_map, List.mem_flatMap] at hnode
  obtain ⟨statement, hstatement, rfl⟩ | ⟨e, he, hnode⟩ := hnode
  · have hbuilt := h.statements statement hstatement
    exact ⟨hbuilt.holds, List.forall_mem_cons.2 ⟨cuts_of_within hbuilt.within,
      fun part hpart ↦ cuts_of_within (hbuilt.within_of_mem_parts part hpart)⟩⟩
  · obtain ⟨inner, hinner, rfl⟩ := List.mem_map.1 hnode
    have hbuilt := e.built_of_mem_nodes (h.built_of_mem_expressions e he) inner hinner
    exact ⟨hbuilt.holds, List.forall_mem_cons.2 ⟨cuts_of_within hbuilt.within,
      fun part hpart ↦ cuts_of_within (hbuilt.within_of_mem_parts part hpart)⟩⟩

theorem Sound.exists_location (h : file.Sound) :
    ∀ diagnostic ∈ file.diagnostics, ∃ start length,
      diagnostic.location = some ⟨file.name, start, length⟩ ∧
        file.Cuts ⟨start, start + length⟩ := by
  intro diagnostic hdiagnostic
  obtain ⟨finding, hfinding, rfl⟩ := List.mem_map.1 hdiagnostic
  have hwithin := h.findings finding hfinding
  refine ⟨finding.span.start, finding.span.length, rfl, ?_⟩
  rw [hwithin.start_add_length]
  exact cuts_of_within hwithin

/-- All spans of a file that was read can be cut out of its text.  What has parts holds them in
their order, and the statements take up some of the text, one behind the other. -/
theorem spans_parse (name text : String) (target : Int) :
    (∀ node ∈ (parse name text target).nodes, node.1.Holds node.2 ∧
      ∀ span ∈ node.1 :: node.2, (parse name text target).Cuts span) ∧
    (∀ statement ∈ (parse name text target).statements,
      statement.span.start < statement.span.stop) ∧
    ((parse name text target).statements.Pairwise
      fun first second ↦ first.span.stop ≤ second.span.start) ∧
    ∀ diagnostic ∈ (parse name text target).diagnostics, ∃ start length,
      diagnostic.location = some ⟨name, start, length⟩ ∧
        (parse name text target).Cuts ⟨start, start + length⟩ := by
  have hsound := sound_parse name text target
  refine ⟨hsound.holds_of_mem_nodes, fun statement hstatement ↦ ?_, ?_, hsound.exists_location⟩
  · exact (hsound.statements statement hstatement).lt
  · exact Parsing.statements_inOrder (Stream.orderly_ofScan text.toList)

example : (parse "a.ts" "let x = f(y.z, 'é');" 1).nodes =
    [(⟨0, 21⟩, [⟨4, 5⟩, ⟨8, 20⟩]), (⟨8, 20⟩, [⟨8, 9⟩, ⟨10, 13⟩, ⟨15, 19⟩]), (⟨8, 9⟩, []),
      (⟨10, 13⟩, [⟨10, 11⟩, ⟨12, 13⟩]), (⟨10, 11⟩, []), (⟨15, 19⟩, [])] := by
  decide +kernel

end SourceFile

end VersionSweep
