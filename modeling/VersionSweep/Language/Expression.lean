import VersionSweep.Language.Stream

/-!
# Reading of expressions

An expression is a literal, a name or an expression in parentheses, followed by any number of
property accesses and calls.  Each of these opens a level of nesting, and no more than
`nestingLimit` levels may be open at once.  The levels that are still allowed drive the recursion.
-/

namespace VersionSweep.Expression

open Reader

/-- The levels of nesting that may be open at once. -/
def nestingLimit : Nat := 128

def atom? (token : Token) : Option Expr :=
  match token.kind with
  | .number => some (.number token.text token.span)
  | .string => some (.string (String.ofList (Quoted.unquote token.text.toList)) token.span)
  | .word =>
    if token.text = "true" ∨ token.text = "false" then
      some (.bool (token.text = "true") token.span)
    else if reservedWords.contains token.text then none
    else some (.name ⟨token.text, token.span⟩)
  | _ => none

def parenthesized (inner : Reader Expr) : Reader Expr := do
  let opening ← token
  let value ← inner
  let closing ← punctuator ')'
  pure (.paren value ⟨opening.span.start, closing.span.stop⟩)

/-- Read a literal, a name or an expression in parentheses, given how to read the inner one. -/
def primary (inner : Reader Expr) : Reader Expr :=
  fun s ↦
    match atom? s.next with
    | some value => .read value s.skip
    | none =>
      if s.next.isPunctuator '(' then parenthesized inner s
      else failHere .expressionExpected s

mutual

/-- Read an expression when a number of levels may still be opened. -/
def read : Nat → Reader Expr
  | 0 => failHere .nestedTooDeep
  | levels + 1 => do
    let value ← primary (read levels)
    suffixes levels value

/-- Read the accesses and calls that follow an expression. -/
def suffixes : Nat → Expr → Reader Expr
  | 0, value => do
    let token ← peek
    if token.isPunctuator '.' || token.isPunctuator '(' then failHere .nestedTooDeep
    else pure value
  | levels + 1, value => do
    if ← optionalPunctuator '.' then
      let property ← ident
      suffixes levels (.member value property ⟨value.span.start, property.span.stop⟩)
    else if ← optionalPunctuator '(' then
      let arguments ← separated ')' (read levels)
      let close ← punctuator ')'
      suffixes levels (.call value arguments ⟨value.span.start, close.span.stop⟩)
    else pure value

end

def expression : Reader Expr :=
  read nestingLimit

theorem advances_parenthesized_rest {inner : Reader Expr} (h : Advances inner) (opening : Token) :
    Advances (do
      let value ← inner
      let closing ← punctuator ')'
      pure (Expr.paren value ⟨opening.span.start, closing.span.stop⟩)) :=
  h.bind fun _ ↦ (advances_punctuator _).bind fun _ ↦ advances_pure _

theorem advances_primary {inner : Reader Expr} (h : Advances inner) :
    Advances (primary inner) := by
  intro s
  unfold primary
  split
  · exact .skip s
  · split
    · exact advances_token.bind (advances_parenthesized_rest h) s
    · exact .refl s

theorem advances_read_suffixes (levels : Nat) :
    Advances (read levels) ∧ ∀ value, Advances (suffixes levels value) := by
  induction levels with
  | zero =>
    refine ⟨advances_failHere _, fun value ↦ advances_peek.bind fun token ↦ ?_⟩
    split
    · exact advances_failHere _
    · exact advances_pure _
  | succ levels ih =>
    refine ⟨(advances_primary ih.1).bind ih.2, fun value ↦ ?_⟩
    refine (advances_optionalPunctuator _).bind fun found ↦ ?_
    split
    · exact advances_ident.bind fun _ ↦ ih.2 _
    · refine (advances_optionalPunctuator _).bind fun found ↦ ?_
      split
      · exact (advances_separated _ ih.1).bind fun _ ↦
          (advances_punctuator _).bind fun _ ↦ ih.2 _
      · exact advances_pure _

theorem ne_nil_of_atom? {s : Stream} {value : Expr} (h : atom? s.next = some value) :
    s.tokens ≠ [] := by
  refine Stream.ne_nil_of_kind_ne fun hk ↦ ?_
  rw [atom?, hk] at h
  cases h

theorem consumes_primary {inner : Reader Expr} (h : Advances inner) :
    Consumes (primary inner) := by
  intro s value rest hread
  unfold primary at hread
  split at hread
  · rename_i hatom
    cases hread
    exact Stream.size_skip_lt (ne_nil_of_atom? hatom)
  · split at hread
    · rename_i hparen
      have hlt := size_rest_token_bind_lt (Stream.ne_nil_of_isPunctuator hparen)
        (advances_parenthesized_rest h)
      change (parenthesized inner s).rest.size < s.size at hlt
      rw [hread] at hlt
      exact hlt
    · cases hread

theorem consumes_read (levels : Nat) : Consumes (read levels) := by
  cases levels with
  | zero => intro s value rest h; simp [read, failHere] at h
  | succ levels =>
    exact (consumes_primary (advances_read_suffixes levels).1).bind
      (advances_read_suffixes levels).2

theorem consumes_expression : Consumes expression :=
  consumes_read nestingLimit

theorem advances_expression : Advances expression :=
  (advances_read_suffixes nestingLimit).1

end VersionSweep.Expression
