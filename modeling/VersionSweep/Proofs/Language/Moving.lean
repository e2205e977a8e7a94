import VersionSweep.Language.SourceFile
import VersionSweep.Proofs.Language.Outline

/-!
# Trees at other places

The places of tokens, of trees and of findings may all be mapped by one function.  Nothing else of
them changes, so a moved tree is the tree of a text in which other places were found.
-/

namespace VersionSweep

variable {f : Nat → Nat}

def Span.moved (f : Nat → Nat) (span : Span) : Span :=
  ⟨f span.start, f span.stop⟩

def Ident.moved (f : Nat → Nat) (ident : Ident) : Ident :=
  { ident with span := ident.span.moved f }

mutual

/-- An expression with all places in it mapped. -/
def Expr.moved (f : Nat → Nat) : Expr → Expr
  | .number text span => .number text (span.moved f)
  | .string value span => .string value (span.moved f)
  | .bool value span => .bool value (span.moved f)
  | .name ident => .name (ident.moved f)
  | .paren inner span => .paren (inner.moved f) (span.moved f)
  | .member object property span =>
    .member (object.moved f) (property.moved f) (span.moved f)
  | .call callee arguments span =>
    .call (callee.moved f) (Expr.allMoved f arguments) (span.moved f)

def Expr.allMoved (f : Nat → Nat) : List Expr → List Expr
  | [] => []
  | e :: rest => e.moved f :: Expr.allMoved f rest

end

def VarDecl.moved (f : Nat → Nat) (decl : VarDecl) : VarDecl :=
  { decl with
    name := decl.name.moved f
    annotation := decl.annotation.map (Ident.moved f)
    init := decl.init.map (Expr.moved f)
    span := decl.span.moved f }

def ImportDecl.moved (f : Nat → Nat) (decl : ImportDecl) : ImportDecl :=
  { decl with
    names := decl.names.map (Ident.moved f)
    specifierSpan := decl.specifierSpan.moved f
    span := decl.span.moved f }

def Statement.moved (f : Nat → Nat) : Statement → Statement
  | .var decl => .var (decl.moved f)
  | .importNames decl => .importNames (decl.moved f)
  | .expr value span => .expr (value.moved f) (span.moved f)

def Finding.moved (f : Nat → Nat) (finding : Finding) : Finding :=
  { finding with span := finding.span.moved f }

def Location.moved (f : Nat → Nat) (location : Location) : Location :=
  { location with
    start := f location.start
    length := f (location.start + location.length) - f location.start }

def Diagnostic.moved (f : Nat → Nat) (diagnostic : Diagnostic) : Diagnostic :=
  { diagnostic with location := diagnostic.location.map (Location.moved f) }

def Token.moved (f : Nat → Nat) (token : Token) : Token :=
  { token with span := token.span.moved f }

def Token.TextEnd.moved (f : Nat → Nat) (finish : Token.TextEnd) : Token.TextEnd :=
  { finish with offset := f finish.offset }

def Token.Scan.moved (f : Nat → Nat) (scan : Token.Scan) : Token.Scan :=
  ⟨scan.tokens.map (Token.moved f), scan.finish.moved f, scan.findings.map (Finding.moved f)⟩

def Stream.moved (f : Nat → Nat) (s : Stream) : Stream :=
  ⟨s.tokens.map (Token.moved f), s.finish.moved f, f s.lastStop⟩

def Parsing.Item.moved (f : Nat → Nat) : Item → Item
  | .statement value => .statement (value.moved f)
  | .finding value => .finding (value.moved f)
  | .empty => .empty

theorem Expr.allMoved_eq_map (arguments : List Expr) :
    Expr.allMoved f arguments = arguments.map (Expr.moved f) := by
  induction arguments with
  | nil => rw [Expr.allMoved, List.map_nil]
  | cons e rest ih => rw [Expr.allMoved, List.map_cons, ih]

theorem Expr.span_moved (e : Expr) : (e.moved f).span = e.span.moved f := by
  cases e <;> rw [Expr.moved] <;> rfl

theorem Expr.moved_member (value : Expr) (property : Ident) :
    (Expr.member value property ⟨value.span.start, property.span.stop⟩).moved f =
      .member (value.moved f) (property.moved f)
        ⟨(value.moved f).span.start, (property.moved f).span.stop⟩ := by
  rw [moved, span_moved]
  rfl

theorem Expr.moved_call (value : Expr) (arguments : List Expr) (close : Token) :
    (Expr.call value arguments ⟨value.span.start, close.span.stop⟩).moved f =
      .call (value.moved f) (arguments.map (Expr.moved f))
        ⟨(value.moved f).span.start, (close.moved f).span.stop⟩ := by
  rw [moved, allMoved_eq_map, span_moved]
  rfl

mutual

theorem Expr.moved_id : (e : Expr) → e.moved id = e
  | .number _ _ => rfl
  | .string _ _ => rfl
  | .bool _ _ => rfl
  | .name _ => rfl
  | .paren inner span => by
    rw [moved, inner.moved_id]
    rfl
  | .member object property span => by
    rw [moved, object.moved_id]
    rfl
  | .call callee arguments span => by
    rw [moved, callee.moved_id, Expr.allMoved_id arguments]
    rfl

theorem Expr.allMoved_id : (arguments : List Expr) → Expr.allMoved id arguments = arguments
  | [] => by rw [allMoved]
  | e :: rest => by rw [allMoved, e.moved_id, Expr.allMoved_id rest]

end

theorem Ident.moved_id : Ident.moved id = id := rfl

theorem Statement.moved_id (statement : Statement) : statement.moved id = statement := by
  have hexpr : Expr.moved id = id := funext Expr.moved_id
  cases statement with
  | var decl =>
    rw [moved, VarDecl.moved, hexpr, Ident.moved_id, Option.map_id, Option.map_id]
    rfl
  | importNames decl =>
    rw [moved, ImportDecl.moved, Ident.moved_id, List.map_id]
    rfl
  | expr value span =>
    rw [moved, hexpr]
    rfl

theorem Finding.toDiagnostic_moved {finding : Finding} (h : finding.span.start ≤ finding.span.stop)
    (file : String) :
    (finding.moved f).toDiagnostic file = (finding.toDiagnostic file).moved f := by
  have hstop : finding.span.start + finding.span.length = finding.span.stop :=
    Nat.add_sub_cancel' h
  rw [Finding.toDiagnostic, Finding.toDiagnostic, Diagnostic.moved, Option.map_some,
    Location.moved, hstop]
  rfl

/-- Findings are moved in their order if none of them changes places with another one. -/
theorem Finding.sort_map_moved (hf : ∀ a b, f a ≤ f b ↔ a ≤ b) (findings : List Finding) :
    Finding.sort (findings.map (Finding.moved f)) =
      (Finding.sort findings).map (Finding.moved f) := by
  refine (List.map_mergeSort fun a _ b _ ↦ ?_).symm
  simp [Finding.moved, Span.moved, hf]

/-- The diagnostics of a file whose findings are those of another one at other places. -/
theorem SourceFile.diagnostics_moved {file other : SourceFile} (hname : other.name = file.name)
    (hfindings : other.findings = file.findings.map (Finding.moved f))
    (hle : ∀ finding ∈ file.findings, finding.span.start ≤ finding.span.stop) :
    other.diagnostics = file.diagnostics.map (Diagnostic.moved f) := by
  rw [diagnostics, diagnostics, hfindings, hname, List.map_map, List.map_map]
  exact List.map_congr_left fun finding hfinding ↦
    Finding.toDiagnostic_moved (hle finding hfinding) file.name

namespace Parsing.Item

theorem filterMap_statement?_map_moved (items : List Item) :
    (items.map (moved f)).filterMap statement? =
      (items.filterMap statement?).map (Statement.moved f) := by
  rw [List.filterMap_map, List.map_filterMap]
  refine congrArg (List.filterMap · items) (funext fun item ↦ ?_)
  cases item <;> rfl

theorem filterMap_finding?_map_moved (items : List Item) :
    (items.map (moved f)).filterMap finding? =
      (items.filterMap finding?).map (Finding.moved f) := by
  rw [List.filterMap_map, List.map_filterMap]
  refine congrArg (List.filterMap · items) (funext fun item ↦ ?_)
  cases item <;> rfl

end Parsing.Item

namespace Token

theorem Gap.findings_moved (f : Nat → Nat) (gap : Gap) (stop : Nat) :
    gap.findings (f stop) = (gap.findings stop).map (Finding.moved f) := by
  rw [findings, findings, apply_ite (List.map _)]
  rfl

/-- A text that begins further behind is scanned as it is, at places further behind. -/
theorem scan_add (offset k : Nat) (cs : List Char) :
    scan (offset + k) cs = (scan offset cs).moved (· + k) := by
  induction hn : cs.length using Nat.strongRecOn generalizing offset cs with
  | ind n ih =>
    subst hn
    obtain ⟨lead, hlead⟩ : ∃ lead, gap .blanks cs = lead := ⟨_, rfl⟩
    have hgap := length_gap_rest_le .blanks cs
    rw [hlead] at hgap
    have hfindings (stop : Nat) : lead.findings (stop + k) =
        (lead.findings stop).map (Finding.moved (· + k)) :=
      Gap.findings_moved (· + k) lead stop
    cases hrest : lead.rest with
    | nil =>
      rw [scan_of_rest_nil hlead hrest, scan_of_rest_nil hlead hrest, Nat.add_right_comm,
        hfindings]
      rfl
    | cons c rest =>
      have hlt := length_lexeme_rest_lt c rest
      rw [hrest] at hgap
      have htail := ih _ (Nat.lt_of_lt_of_le hlt hgap)
        (offset + Text.byteLength lead.text + Text.byteLength (lexeme c rest).text)
        (lexeme c rest).rest rfl
      rw [scan_of_rest_cons hlead hrest, scan_of_rest_cons hlead hrest, Nat.add_right_comm,
        Nat.add_right_comm (offset + _), hfindings]
      dsimp only
      rw [htail]
      simp [Scan.moved, Token.moved, Span.moved, Finding.moved, Function.comp_def]

end Token

namespace Stream

theorem next_moved (s : Stream) : (s.moved f).next = s.next.moved f := by
  obtain ⟨tokens, finish, lastStop⟩ := s
  cases tokens <;> rfl

theorem skip_moved (s : Stream) : (s.moved f).skip = s.skip.moved f := by
  obtain ⟨tokens, finish, lastStop⟩ := s
  cases tokens <;> rfl

theorem size_moved (s : Stream) : (s.moved f).size = s.size :=
  List.length_map _

end Stream

end VersionSweep
