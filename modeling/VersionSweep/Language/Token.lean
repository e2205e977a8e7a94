import VersionSweep.Language.Problem
import VersionSweep.Language.Quoted
import VersionSweep.Text.Blank
import VersionSweep.Text.Offset

/-!
# Tokens

A source text is a row of tokens with gaps between them.  A gap holds blanks and comments.  `scan`
cuts a text into its tokens and reports comments and strings without end and characters that begin
no token; `gap_append` and `lexeme_append` say that nothing gets lost on the way.
-/

namespace VersionSweep

inductive TokenKind where
  /-- A name or a keyword. -/
  | word
  | number
  /-- A string literal with its quotes. -/
  | string
  | punctuator (c : Char)
  | unknown
  | endOfText
  deriving DecidableEq, Repr

structure Token where
  kind : TokenKind
  text : String
  span : Span
  /-- Whether there is a line feed in the gap before the token. -/
  afterBreak : Bool
  deriving DecidableEq, Repr

namespace Token

def isPunctuator (token : Token) (c : Char) : Bool :=
  token.kind == .punctuator c

def isWord (token : Token) (word : String) : Bool :=
  token.kind == .word && token.text == word

/-- What a scan is in the middle of between two tokens. -/
inductive GapMode where
  | blanks
  | lineComment
  | blockComment
  deriving DecidableEq, Repr

/-- The gap at the beginning of a text, and the text after it. -/
structure Gap where
  text : List Char
  rest : List Char
  /-- False only if a block comment in the gap has no end. -/
  closed : Bool
  /-- Whether a line feed was passed. -/
  broken : Bool

/-- Pass one more character, in front of those that were passed.  A line feed is noted. -/
def Gap.push (c : Char) (gap : Gap) : Gap :=
  { gap with text := c :: gap.text, broken := '\n' == c || gap.broken }

/-- Cut off blanks and comments.  The line feed after a line comment is a blank again. -/
def gap : GapMode → List Char → Gap
  | .blanks, [] => ⟨[], [], true, false⟩
  | .blanks, '/' :: '/' :: rest => ((gap .lineComment rest).push '/').push '/'
  | .blanks, '/' :: '*' :: rest => ((gap .blockComment rest).push '*').push '/'
  | .blanks, c :: rest =>
    if Text.isBlank c then (gap .blanks rest).push c else ⟨[], c :: rest, true, false⟩
  | .lineComment, [] => ⟨[], [], true, false⟩
  | .lineComment, c :: rest =>
    if c = '\n' then (gap .blanks rest).push c else (gap .lineComment rest).push c
  | .blockComment, [] => ⟨[], [], false, false⟩
  | .blockComment, '*' :: '/' :: rest => ((gap .blanks rest).push '/').push '*'
  | .blockComment, c :: rest => (gap .blockComment rest).push c

theorem gap_append (mode : GapMode) (cs : List Char) :
    (gap mode cs).text ++ (gap mode cs).rest = cs := by
  fun_induction gap mode cs <;> simp_all [Gap.push]

/-- What is noted on the way is whether the gap has a line feed in it. -/
theorem broken_gap (mode : GapMode) (cs : List Char) :
    (gap mode cs).broken = (gap mode cs).text.contains '\n' := by
  fun_induction gap mode cs <;> simp_all [Gap.push, -List.contains_eq_mem, List.contains_cons]

theorem length_gap_rest_le (mode : GapMode) (cs : List Char) :
    (gap mode cs).rest.length ≤ cs.length := by
  have h := congrArg List.length (gap_append mode cs)
  rw [List.length_append] at h
  omega

def beginsWord (c : Char) : Bool :=
  c.isAlpha || c == '_' || c == '$'

def continuesWord (c : Char) : Bool :=
  c.isAlphanum || c == '_' || c == '$'

def punctuators : List Char := [';', ':', '=', ',', '{', '}', '(', ')', '.']

/-- A token without its place, the text after it, and what is wrong with it. -/
structure Lexeme where
  kind : TokenKind
  text : List Char
  rest : List Char
  problem : Option Problem

/-- The rest of a number after its first digit: digits, and a fraction if a digit follows the
point. -/
def numberRest (cs : List Char) : List Char × List Char :=
  let whole := cs.takeWhile Char.isDigit
  match cs.dropWhile Char.isDigit with
  | '.' :: c :: rest =>
    if c.isDigit then
      (whole ++ '.' :: c :: rest.takeWhile Char.isDigit, rest.dropWhile Char.isDigit)
    else (whole, '.' :: c :: rest)
  | rest => (whole, rest)

theorem numberRest_append (cs : List Char) : (numberRest cs).1 ++ (numberRest cs).2 = cs := by
  have h : cs.takeWhile Char.isDigit ++ cs.dropWhile Char.isDigit = cs :=
    List.takeWhile_append_dropWhile
  unfold numberRest
  split
  · rename_i c rest hrest
    rw [hrest] at h
    split <;> simp_all
  · exact h

/-- The token that begins with the character `c` at the head of a text. -/
def lexeme (c : Char) (rest : List Char) : Lexeme :=
  if beginsWord c then
    ⟨.word, c :: rest.takeWhile continuesWord, rest.dropWhile continuesWord, none⟩
  else if c.isDigit then
    ⟨.number, c :: (numberRest rest).1, (numberRest rest).2, none⟩
  else if c = '"' ∨ c = '\'' then
    let literal := Quoted.scan c rest
    ⟨.string, c :: literal.body, literal.rest,
      if literal.closed then none else some .unterminatedString⟩
  else if c ∈ punctuators then ⟨.punctuator c, [c], rest, none⟩
  else ⟨.unknown, [c], rest, some .invalidCharacter⟩

theorem lexeme_append (c : Char) (rest : List Char) :
    (lexeme c rest).text ++ (lexeme c rest).rest = c :: rest := by
  unfold lexeme
  split
  · simp
  · split
    · simp [numberRest_append]
    · split
      · simp [Quoted.scan_append]
      · split <;> simp

theorem length_lexeme_rest_lt (c : Char) (rest : List Char) :
    (lexeme c rest).rest.length < (c :: rest).length := by
  have h := congrArg List.length (lexeme_append c rest)
  have hpos : 0 < (lexeme c rest).text.length := by
    unfold lexeme
    split
    · simp
    · split
      · simp
      · split
        · simp
        · split <;> simp
  rw [List.length_append] at h
  omega

/-- The end of a text: where it is, and whether a line feed is in the gap before it. -/
structure TextEnd where
  offset : Nat
  afterBreak : Bool
  deriving DecidableEq, Repr

def TextEnd.token (finish : TextEnd) : Token :=
  ⟨.endOfText, "", ⟨finish.offset, finish.offset⟩, finish.afterBreak⟩

/-- The tokens of a text, its end, and what was found wrong on the way. -/
structure Scan where
  tokens : List Token
  finish : TextEnd
  findings : List Finding

def scan (offset : Nat) (cs : List Char) : Scan :=
  let lead := gap .blanks cs
  let start := offset + Text.byteLength lead.text
  let unclosed := if lead.closed then [] else [⟨.unclosedComment, ⟨start, start⟩⟩]
  match _h : lead.rest with
  | [] => ⟨[], ⟨start, lead.broken⟩, unclosed⟩
  | c :: rest =>
    let found := lexeme c rest
    let span : Span := ⟨start, start + Text.byteLength found.text⟩
    let tail := scan span.stop found.rest
    ⟨⟨found.kind, String.ofList found.text, span, lead.broken⟩ :: tail.tokens, tail.finish,
      unclosed ++ (found.problem.toList.map fun problem ↦ ⟨problem, span⟩) ++ tail.findings⟩
termination_by cs.length
decreasing_by
  have h₁ := length_lexeme_rest_lt c rest
  have h₂ := length_gap_rest_le .blanks cs
  rw [_h] at h₂
  omega

end Token

end VersionSweep
