import VersionSweep.Language.SourceFile
import VersionSweep.Proofs.Language.Reading
import VersionSweep.Proofs.Language.TokenRow

/-!
# Syntax trees are built from tokens

Every leaf of a syntax tree is a token of its text, and every node begins and stops where tokens do,
with its parts in order between.  The reading of expressions, of statements and of whole files keeps
to this.  Since tokens stand in their text, so does every span of a file that was read.
-/

namespace VersionSweep

variable {T : Token → Prop}

mutual

/-- An expression whose leaves are tokens and whose nodes hold their parts in order. -/
def Expr.Built (T : Token → Prop) : Expr → Prop
  | .number text span => ∃ token, T token ∧ token.kind = .number ∧ token.text = text ∧
      token.span = span
  | .string value span => ∃ token, T token ∧ token.kind = .string ∧
      String.ofList (Quoted.unquote token.text.toList) = value ∧ token.span = span
  | .bool _ span => ∃ token, T token ∧ token.kind = .word ∧ token.span = span
  | .name ident => ident.Of T
  | .paren inner span => inner.Built T ∧ span.Frames T [inner.span]
  | .member object property span =>
    object.Built T ∧ property.Of T ∧ span.Frames T [object.span, property.span]
  | .call callee arguments span =>
    callee.Built T ∧ Expr.AllBuilt T arguments ∧
      span.Frames T (callee.span :: arguments.map Expr.span)

def Expr.AllBuilt (T : Token → Prop) : List Expr → Prop
  | [] => True
  | e :: rest => e.Built T ∧ Expr.AllBuilt T rest

end

theorem Expr.allBuilt_iff {arguments : List Expr} :
    Expr.AllBuilt T arguments ↔ ∀ e ∈ arguments, e.Built T := by
  induction arguments with
  | nil => simp [Expr.AllBuilt]
  | cons e rest ih => simp [Expr.AllBuilt, ih]

structure VarDecl.Built (T : Token → Prop) (decl : VarDecl) : Prop where
  name : decl.name.Of T
  annotation : ∀ annotation ∈ decl.annotation, annotation.Of T
  init : ∀ init ∈ decl.init, init.Built T
  frames : decl.span.Frames T (decl.name.span ::
    ((decl.annotation.map Ident.span).toList ++ (decl.init.map Expr.span).toList))

structure ImportDecl.Built (T : Token → Prop) (decl : ImportDecl) : Prop where
  names : ∀ name ∈ decl.names, name.Of T
  specifier : ∃ token, T token ∧ token.kind = .string ∧
    String.ofList (Quoted.unquote token.text.toList) = decl.specifier ∧
    token.span = decl.specifierSpan
  frames : decl.span.Frames T (decl.names.map Ident.span ++ [decl.specifierSpan])

def Statement.Built (T : Token → Prop) : Statement → Prop
  | .var decl => decl.Built T
  | .importNames decl => decl.Built T
  | .expr value span => value.Built T ∧ span.Frames T [value.span]

theorem Ident.Of.frames {ident : Ident} (h : ident.Of T)
    (hle : ident.span.start ≤ ident.span.stop) :
    ident.span.Frames T [] := by
  obtain ⟨token, htoken, -, -, hspan⟩ := h
  exact ⟨⟨token, htoken, by rw [hspan]⟩, .inr ⟨token, htoken, by rw [hspan]⟩, hle⟩

theorem Expr.Built.frames {e : Expr} (h : e.Built T) (hle : e.span.start ≤ e.span.stop) :
    e.span.Frames T [] := by
  cases e with
  | number text span =>
    obtain ⟨token, htoken, -, -, rfl⟩ := h
    exact ⟨⟨token, htoken, rfl⟩, .inr ⟨token, htoken, rfl⟩, hle⟩
  | string value span =>
    obtain ⟨token, htoken, -, -, rfl⟩ := h
    exact ⟨⟨token, htoken, rfl⟩, .inr ⟨token, htoken, rfl⟩, hle⟩
  | bool value span =>
    obtain ⟨token, htoken, -, rfl⟩ := h
    exact ⟨⟨token, htoken, rfl⟩, .inr ⟨token, htoken, rfl⟩, hle⟩
  | name ident => exact Ident.Of.frames h hle
  | paren inner span => exact ⟨h.2.start, h.2.stop, hle⟩
  | member object property span => exact ⟨h.2.2.start, h.2.2.stop, hle⟩
  | call callee arguments span => exact ⟨h.2.2.start, h.2.2.stop, hle⟩

namespace Expression

open Reader

variable {s : Stream}

/-- The reading of an expression that begins with the next token. -/
def ReadsExpr (T : Token → Prop) (reader : Reader Expr) : Prop :=
  ∀ s : Stream, s.Orderly T → (reader s).From T s.lastStop fun e rest ↦
    e.Built T ∧ e.span.start = s.next.span.start ∧ e.span.Took s.lastStop rest

theorem ReadsExpr.took {reader : Reader Expr} (h : ReadsExpr T reader) (s : Stream)
    (hs : s.Orderly T) : (reader s).From T s.lastStop fun e rest ↦
      e.Built T ∧ e.span.Took s.lastStop rest :=
  (h s hs).mono (Nat.le_refl _) fun _ _ _ _ he ↦ ⟨he.1, he.2.2⟩

theorem built_of_atom? {token : Token} {value : Expr} (htoken : T token)
    (h : atom? token = some value) : value.Built T ∧ value.span = token.span := by
  unfold atom? at h
  split at h
  · rename_i hkind
    obtain rfl := Option.some.inj h
    exact ⟨⟨token, htoken, hkind, rfl, rfl⟩, rfl⟩
  · rename_i hkind
    obtain rfl := Option.some.inj h
    exact ⟨⟨token, htoken, hkind, rfl, rfl⟩, rfl⟩
  · rename_i hkind
    split at h
    · obtain rfl := Option.some.inj h
      exact ⟨⟨token, htoken, hkind, rfl⟩, rfl⟩
    · split at h
      · cases h
      · obtain rfl := Option.some.inj h
        exact ⟨⟨token, htoken, hkind, rfl, rfl⟩, rfl⟩
  · cases h

theorem from_parenthesized {inner : Reader Expr} (hinner : ReadsExpr T inner)
    (h : s.Orderly T) (hs : s.tokens ≠ []) :
    (parenthesized inner s).From T s.lastStop fun e rest ↦
      e.Built T ∧ e.span.start = s.next.span.start ∧ e.span.Took s.lastStop rest := by
  refine ((hinner.took s.skip h.skip).bind ?_).mono h.lastStop_le_skip fun _ _ _ _ hq ↦ hq
  rintro value middle hmiddle - ⟨hvalue, htook⟩
  refine (from_punctuator ')' hmiddle).bind ?_
  rintro closing rest hrest - ⟨hclosing, hclosed⟩
  obtain ⟨hlow, hopen, hskip⟩ := took_next h hs
  obtain ⟨hinnerLow, hinnerLe, hinnerStop⟩ := htook
  obtain ⟨hclosingLow, hclosingLe, hclosingStop⟩ := hclosed
  refine from_pure hrest ⟨⟨hvalue, ⟨s.next, h.next, rfl⟩, .inr ⟨closing, hclosing, rfl⟩, ?_⟩, ?_⟩
  · exact ⟨by dsimp only; omega, hinnerLe, by dsimp only [Span.Row]; omega⟩
  · exact ⟨rfl, hlow, by dsimp only [Expr.span]; omega, hclosingStop⟩

theorem from_primary {inner : Reader Expr} (hinner : ReadsExpr T inner) :
    ReadsExpr T (primary inner) := by
  intro s h
  unfold primary
  split
  · rename_i value hatom
    obtain ⟨hbuilt, hspan⟩ := built_of_atom? h.next hatom
    exact from_skip h ⟨hbuilt, by rw [hspan], hspan ▸ took_next h (ne_nil_of_atom? hatom)⟩
  · split
    · rename_i hparen
      exact from_parenthesized hinner h (Stream.ne_nil_of_isPunctuator hparen)
    · exact from_failHere h

/-- What follows an expression is read on to a greater expression with the same beginning. -/
def ReadsOn (T : Token → Prop) (suffixes : Expr → Reader Expr) : Prop :=
  ∀ (value : Expr) (s : Stream), s.Orderly T → value.Built T →
    value.span.start ≤ value.span.stop → value.span.stop = s.lastStop →
    (suffixes value s).From T s.lastStop fun e rest ↦
      e.Built T ∧ e.span.start = value.span.start ∧ e.span.Took value.span.start rest

theorem readsOn_zero : ReadsOn T (suffixes 0) := by
  intro value s h hvalue hle hstop
  rw [suffixes, bind_apply, peek, Reading.bind_read]
  split
  · exact from_failHere h
  · exact from_pure h ⟨hvalue, rfl, Nat.le_refl _, hle, hstop⟩

theorem ReadsOn.from_extended {levels : Nat} (ih : ReadsOn T (suffixes levels)) {value e : Expr}
    (h : s.Orderly T) (he : e.Built T) (hstart : e.span.start = value.span.start)
    (hle : e.span.start ≤ e.span.stop) (hstop : e.span.stop = s.lastStop) :
    (suffixes levels e s).From T s.lastStop fun e rest ↦
      e.Built T ∧ e.span.start = value.span.start ∧ e.span.Took value.span.start rest := by
  have hread := ih e s h he hle hstop
  rwa [hstart] at hread

theorem readsOn_succ {levels : Nat} (hread : ReadsExpr T (read levels))
    (ih : ReadsOn T (suffixes levels)) : ReadsOn T (suffixes (levels + 1)) := by
  intro value s h hvalue hle hstop
  have hframes := hvalue.frames hle
  rw [suffixes, bind_apply]
  refine (from_optionalPunctuator '.' h).bind ?_
  rintro dot middle hmiddle hlow hdot
  split
  · refine (from_ident hmiddle).bind ?_
    rintro property rest hrest - ⟨hproperty, hpropertyLow, hpropertyLe, hpropertyStop⟩
    refine ih.from_extended hrest ⟨hvalue, hproperty, hframes.start, ?_, ?_⟩ rfl ?_ hpropertyStop
    · exact (hproperty.frames hpropertyLe).stop
    · exact ⟨Nat.le_refl _, hle, by omega, hpropertyLe, Nat.le_refl _⟩
    · change value.span.start ≤ property.span.stop
      omega
  · rename_i hnoDot
    refine (from_optionalPunctuator '(' hmiddle).bind ?_
    rintro open' final hfinal hlow' hopen
    dsimp only
    split
    · refine (from_separated hread.took hfinal).bind ?_
      rintro arguments rest hrest hlowRest ⟨harguments, hrow⟩
      refine (from_punctuator ')' hrest).bind ?_
      rintro close closed hclosed - ⟨hclose, hcloseLow, hcloseLe, hcloseStop⟩
      refine ih.from_extended hclosed ⟨hvalue, Expr.allBuilt_iff.2 harguments, hframes.start,
        .inr ⟨close, hclose, rfl⟩, Nat.le_refl _, hle, hrow.mono ?_ ?_⟩ rfl ?_ hcloseStop
      · omega
      · exact Nat.le_trans hcloseLow hcloseLe
      · change value.span.start ≤ close.span.stop
        omega
    · rename_i hnoCall
      -- Neither a dot nor a parenthesis was taken: the stream has not moved.
      obtain ⟨rfl, -⟩ | ⟨-, rfl⟩ := hdot
      · exact absurd rfl hnoDot
      obtain ⟨rfl, -⟩ | ⟨-, rfl⟩ := hopen
      · exact absurd rfl hnoCall
      exact from_pure hfinal ⟨hvalue, rfl, Nat.le_refl _, hle, hstop⟩

theorem readsExpr_readsOn (levels : Nat) :
    ReadsExpr T (read levels) ∧ ReadsOn T (suffixes levels) := by
  induction levels with
  | zero => exact ⟨fun s h ↦ from_failHere h, readsOn_zero⟩
  | succ levels ih =>
    refine ⟨fun s h ↦ ?_, readsOn_succ ih.1 ih.2⟩
    refine (from_primary ih.1 s h).bind ?_
    rintro value rest hrest - ⟨hvalue, hstart, htook⟩
    refine (ih.2 value rest hrest hvalue htook.le htook.stop).mono (Nat.le_refl _) ?_
    rintro e final - - ⟨he, hsame, hfinal⟩
    exact ⟨he, hsame.trans hstart, Nat.le_trans htook.low hfinal.low, hfinal.le, hfinal.stop⟩

theorem readsExpr_expression : ReadsExpr T expression :=
  (readsExpr_readsOn nestingLimit).1

end Expression

end VersionSweep
