import VersionSweep.Language.Expression

/-!
# Reading of statements

A statement ends at a semicolon, at a line break, before a closing brace or at the end of the text.
When a statement cannot be read its finding is noted, and the reading goes on behind the next
semicolon or before the next token that begins a line.  `size_step_lt` says that each round takes at
least one token, so the reading of a file comes to an end.
-/

namespace VersionSweep.Parsing

open Reader

/-- Read the end of a statement and tell where the statement ends. -/
def terminator : Reader Nat :=
  fun s ↦
    if s.next.isPunctuator ';' then .read s.next.span.stop s.skip
    else if s.next.afterBreak || s.next.kind == .endOfText || s.next.isPunctuator '}' then
      .read s.lastStop s
    else failHere (.expected ";") s

def after (c : Char) {α : Type} (reader : Reader α) : Reader (Option α) := do
  if ← optionalPunctuator c then
    let value ← reader
    pure (some value)
  else pure none

def varDeclRest (start : Nat) (exported ambient : Bool) (keyword : VarKeyword) :
    Reader Statement := do
  let name ← ident
  let annotation ← after ':' ident
  let init ← after '=' Expression.expression
  let stop ← terminator
  pure (.var ⟨exported, ambient, keyword, name, annotation, init, ⟨start, stop⟩⟩)

def moduleName : Reader Token :=
  fun s ↦
    if s.next.kind = .string then .read s.next s.skip
    else failHere .moduleNameExpected s

def requiredWord (word : String) : Reader Unit := do
  if ← optionalWord word then pure ()
  else failHere (.expected word)

def importRest (start : Nat) : Reader Statement := do
  let _ ← punctuator '{'
  let names ← separated '}' ident
  let _ ← punctuator '}'
  requiredWord "from"
  let name ← moduleName
  let stop ← terminator
  pure (.importNames ⟨names, String.ofList (Quoted.unquote name.text.toList), name.span,
    ⟨start, stop⟩⟩)

def varKeyword? (token : Token) : Option VarKeyword :=
  if token.kind = .word then VarKeyword.ofWord? token.text else none

def beginsExpression (token : Token) : Bool :=
  match token.kind with
  | .word => token.text ≠ "export" && token.text ≠ "import"
  | .number => true
  | .string => true
  | .punctuator c => c == '('
  | _ => false

def exprStatement (start : Nat) : Reader Statement := do
  let value ← Expression.expression
  let stop ← terminator
  pure (.expr value ⟨start, stop⟩)

/-- Read what follows the words `export` and `declare`, given whether they were there. -/
def declarationOrExpression (start : Nat) (exported ambient : Bool) : Reader Statement :=
  fun s ↦
    match varKeyword? s.next with
    | some keyword => varDeclRest start exported ambient keyword s.skip
    | none =>
      if exported || ambient || !beginsExpression s.next then failHere .statementExpected s
      else exprStatement start s

/-- Read a statement that is neither empty nor an import: one that begins at `start`. -/
def otherStatement (start : Nat) : Reader Statement := do
  let exported ← optionalWord "export"
  let ambient ← optionalWord "declare"
  declarationOrExpression start exported ambient

/-- Read a statement; a semicolon by itself is none. -/
def statement : Reader (Option Statement) :=
  fun s ↦
    if s.next.isPunctuator ';' then .read none s.skip
    else if s.next.isWord "import" then (importRest s.next.span.start s.skip).map some
    else (otherStatement s.next.span.start s).map some

/-- The tokens from the next statement on: those behind the first semicolon, or those from the first
token on that begins a line. -/
def boundary (s : Stream) : List Token → Stream
  | [] => { s with tokens := [] }
  | token :: rest =>
    if token.isPunctuator ';' then { s with tokens := rest, lastStop := token.span.stop }
    else if token.afterBreak then { s with tokens := token :: rest }
    else boundary { s with lastStop := token.span.stop } rest

/-- Where the reading goes on after a failure at `failed` in a statement begun at `begun`.  A token
at which no statement can begin is passed over. -/
def recover (begun failed : Stream) : Stream :=
  let s := if failed.size = begun.size then failed.skip else failed
  boundary s s.tokens

/-- What one round of reading gives: a statement, a finding or, for an empty statement, nothing. -/
inductive Item where
  | statement (value : Statement)
  | finding (value : Finding)
  | empty

/-- One round of reading, and the stream after it. -/
def step (s : Stream) : Item × Stream :=
  match statement s with
  | .read (some value) rest => (.statement value, rest)
  | .read none rest => (.empty, rest)
  | .failed finding rest => (.finding finding, recover s rest)

theorem advances_terminator : Advances terminator := by
  intro s
  unfold terminator
  split
  · exact .skip s
  · split
    · exact .refl s
    · exact .refl s

theorem advances_after (c : Char) {α : Type} {reader : Reader α} (h : Advances reader) :
    Advances (after c reader) := by
  refine (advances_optionalPunctuator c).bind fun found ↦ ?_
  split
  · exact h.bind fun _ ↦ advances_pure _
  · exact advances_pure _

theorem advances_moduleName : Advances moduleName := by
  intro s
  unfold moduleName
  split
  · exact .skip s
  · exact .refl s

theorem advances_requiredWord (word : String) : Advances (requiredWord word) := by
  refine (advances_optionalWord word).bind fun found ↦ ?_
  split
  · exact advances_pure _
  · exact advances_failHere _

theorem advances_varDeclRest (start : Nat) (exported ambient : Bool) (keyword : VarKeyword) :
    Advances (varDeclRest start exported ambient keyword) :=
  advances_ident.bind fun _ ↦ (advances_after _ advances_ident).bind fun _ ↦
    (advances_after _ Expression.advances_expression).bind fun _ ↦
      advances_terminator.bind fun _ ↦ advances_pure _

theorem advances_importRest (start : Nat) : Advances (importRest start) :=
  (advances_punctuator _).bind fun _ ↦ (advances_separated _ advances_ident).bind fun _ ↦
    (advances_punctuator _).bind fun _ ↦ (advances_requiredWord _).bind fun _ ↦
      advances_moduleName.bind fun _ ↦ advances_terminator.bind fun _ ↦ advances_pure _

theorem advances_exprStatement (start : Nat) : Advances (exprStatement start) :=
  Expression.advances_expression.bind fun _ ↦ advances_terminator.bind fun _ ↦ advances_pure _

theorem consumes_exprStatement (start : Nat) : Consumes (exprStatement start) :=
  Expression.consumes_expression.bind fun _ ↦ advances_terminator.bind fun _ ↦ advances_pure _

theorem ne_nil_of_varKeyword? {s : Stream} {keyword : VarKeyword}
    (h : varKeyword? s.next = some keyword) : s.tokens ≠ [] := by
  refine Stream.ne_nil_of_kind_ne fun hk ↦ ?_
  rw [varKeyword?, hk] at h
  cases h

theorem advances_declarationOrExpression (start : Nat) (exported ambient : Bool) :
    Advances (declarationOrExpression start exported ambient) := by
  intro s
  unfold declarationOrExpression
  split
  · exact .trans (.skip s) (advances_varDeclRest _ _ _ _ s.skip)
  · split
    · exact .refl s
    · exact advances_exprStatement start s

theorem consumes_declarationOrExpression (start : Nat) (exported ambient : Bool) :
    Consumes (declarationOrExpression start exported ambient) := by
  intro s value rest hread
  unfold declarationOrExpression at hread
  split at hread
  · rename_i keyword hkeyword
    have hle := (advances_varDeclRest start exported ambient keyword s.skip).size_le
    rw [hread] at hle
    exact Nat.lt_of_le_of_lt hle (Stream.size_skip_lt (ne_nil_of_varKeyword? hkeyword))
  · split at hread
    · cases hread
    · exact consumes_exprStatement start s value rest hread

theorem advances_otherStatement (start : Nat) : Advances (otherStatement start) :=
  (advances_optionalWord _).bind fun _ ↦ (advances_optionalWord _).bind fun _ ↦
    advances_declarationOrExpression _ _ _

theorem consumes_otherStatement (start : Nat) : Consumes (otherStatement start) :=
  (advances_optionalWord _).bind_consumes fun _ ↦
    (advances_optionalWord _).bind_consumes fun _ ↦ consumes_declarationOrExpression _ _ _

theorem advances_statement : Advances statement := by
  intro s
  unfold statement
  split
  · exact .skip s
  · split
    · rw [rest_map]
      exact .trans (.skip s) (advances_importRest _ s.skip)
    · rw [rest_map]
      exact advances_otherStatement _ s

theorem consumes_statement : Consumes statement := by
  intro s value rest hread
  unfold statement at hread
  split at hread
  · rename_i hempty
    cases hread
    exact Stream.size_skip_lt (Stream.ne_nil_of_isPunctuator hempty)
  · split at hread
    · rename_i hword
      have hle := (advances_importRest s.next.span.start s.skip).size_le
      have hrest := congrArg Reading.rest hread
      rw [rest_map] at hrest
      rw [hrest] at hle
      exact Nat.lt_of_le_of_lt hle (Stream.size_skip_lt (Stream.ne_nil_of_isWord hword))
    · cases hr : otherStatement s.next.span.start s with
      | failed finding rest => rw [hr] at hread; cases hread
      | read found rest =>
        rw [hr] at hread
        cases hread
        exact consumes_otherStatement _ s found _ hr

theorem leaves_boundary (s : Stream) (tokens : List Token) :
    ({ s with tokens := tokens } : Stream).Leaves (boundary s tokens) := by
  induction tokens generalizing s with
  | nil => exact .refl _
  | cons token rest ih =>
    have hskip := Stream.Leaves.skip { s with tokens := token :: rest }
    rw [boundary]
    split
    · exact hskip
    · split
      · exact .refl _
      · exact hskip.trans (ih { s with lastStop := token.span.stop })

theorem leaves_recover (begun failed : Stream) : failed.Leaves (recover begun failed) := by
  unfold recover
  dsimp only
  split
  · exact .trans (.skip failed) (leaves_boundary failed.skip failed.skip.tokens)
  · exact leaves_boundary failed failed.tokens

theorem size_recover_lt {begun failed : Stream} (hs : begun.tokens ≠ [])
    (h : failed.size ≤ begun.size) : (recover begun failed).size < begun.size := by
  have hpos : 0 < begun.size := List.length_pos_iff.2 hs
  have hbound (s : Stream) : (boundary s s.tokens).size ≤ s.size :=
    (leaves_boundary s s.tokens).size_le
  unfold recover
  split
  · refine Nat.lt_of_le_of_lt (hbound failed.skip) ?_
    rw [Stream.size_skip]
    omega
  · refine Nat.lt_of_le_of_lt (hbound failed) ?_
    omega

/-- A round does nothing to a stream but take tokens from its front. -/
theorem leaves_step (s : Stream) : s.Leaves (step s).2 := by
  have hleaves := advances_statement s
  unfold step
  cases hr : statement s with
  | failed finding rest =>
    rw [hr] at hleaves
    exact hleaves.trans (leaves_recover s rest)
  | read value rest =>
    rw [hr] at hleaves
    cases value with
    | none => exact hleaves
    | some value => exact hleaves

/-- Each round takes at least one token. -/
theorem size_step_lt {s : Stream} (hs : s.tokens ≠ []) : (step s).2.size < s.size := by
  have hle := (advances_statement s).size_le
  unfold step
  cases hr : statement s with
  | failed finding rest =>
    rw [hr] at hle
    exact size_recover_lt hs hle
  | read value rest =>
    have hlt := consumes_statement s value rest hr
    cases value <;> exact hlt

/-- Read statements to the end of the text, noting what could not be read. -/
def items (s : Stream) : List Item :=
  if _h : s.tokens = [] then []
  else (step s).1 :: items (step s).2
termination_by s.size
decreasing_by exact size_step_lt _h

def Item.statement? : Item → Option Statement
  | .statement value => some value
  | _ => none

def Item.finding? : Item → Option Finding
  | .finding value => some value
  | _ => none

end VersionSweep.Parsing
