import VersionSweep.Language.Token
import VersionSweep.Language.Tree

/-!
# Token streams and readers

A reader looks at the tokens that are left and either reads something or fails with a finding.  Both
ways it says which tokens are left then: what follows a failed statement is found from there.  No
reader does anything to a stream but take tokens from its front, `Reader.Advances`.
-/

namespace VersionSweep

/-- The tokens that are left, the end of the text, and where the last token ended. -/
structure Stream where
  tokens : List Token
  finish : Token.TextEnd
  lastStop : Nat

namespace Stream

def ofScan (scan : Token.Scan) : Stream :=
  ⟨scan.tokens, scan.finish, 0⟩

def size (s : Stream) : Nat :=
  s.tokens.length

def next (s : Stream) : Token :=
  s.tokens.headD s.finish.token

/-- The stream after its next token.  The end of the text is never passed. -/
def skip (s : Stream) : Stream :=
  match s.tokens with
  | [] => s
  | token :: rest => { s with tokens := rest, lastStop := token.span.stop }

theorem size_skip (s : Stream) : s.skip.size = s.size - 1 := by
  cases s with
  | mk tokens finish lastStop => cases tokens <;> simp [skip, size]

theorem size_skip_le (s : Stream) : s.skip.size ≤ s.size := by
  rw [size_skip]
  exact Nat.sub_le _ _

theorem size_skip_lt {s : Stream} (h : s.tokens ≠ []) : s.skip.size < s.size := by
  rw [size_skip]
  have : 0 < s.size := List.length_pos_iff.2 h
  omega

theorem ne_nil_of_kind_ne {s : Stream} (h : s.next.kind ≠ .endOfText) : s.tokens ≠ [] := by
  intro hs
  rw [next, hs] at h
  exact h rfl

theorem ne_nil_of_isPunctuator {s : Stream} {c : Char} (h : s.next.isPunctuator c = true) :
    s.tokens ≠ [] := by
  refine ne_nil_of_kind_ne fun hk ↦ ?_
  rw [Token.isPunctuator, hk] at h
  exact absurd h (by simp)

theorem ne_nil_of_isWord {s : Stream} {word : String} (h : s.next.isWord word = true) :
    s.tokens ≠ [] := by
  refine ne_nil_of_kind_ne fun hk ↦ ?_
  rw [Token.isWord, hk] at h
  exact absurd h (by simp)

theorem tokens_eq_cons {s : Stream} (hs : s.tokens ≠ []) :
    s.tokens = s.next :: s.skip.tokens := by
  obtain ⟨tokens, finish, lastStop⟩ := s
  cases tokens with
  | nil => exact absurd rfl hs
  | cons token tokens => rfl

/-- A stream is passed on to another one by taking some tokens. -/
inductive Passes : Stream → List Token → Stream → Prop
  | refl (s : Stream) : Passes s [] s
  | step {s rest : Stream} {used : List Token} (hs : s.tokens ≠ []) (h : Passes s.skip used rest) :
      Passes s (s.next :: used) rest

namespace Passes

variable {s middle rest : Stream} {used more : List Token}

theorem skip (hs : s.tokens ≠ []) : s.Passes [s.next] s.skip :=
  .step hs (.refl _)

theorem trans (h : s.Passes used middle) (h' : middle.Passes more rest) :
    s.Passes (used ++ more) rest := by
  induction h with
  | refl => exact h'
  | step hs _ ih => exact .step hs (ih h')

theorem tokens_eq (h : s.Passes used rest) : s.tokens = used ++ rest.tokens := by
  induction h with
  | refl => rfl
  | step hs _ ih => rw [List.cons_append, ← ih, ← tokens_eq_cons hs]

theorem size_eq (h : s.Passes used rest) : s.size = used.length + rest.size := by
  rw [size, h.tokens_eq, List.length_append, size]

end Passes

/-- What can be left of a stream: it was passed on by taking some tokens, or none. -/
def Leaves (s rest : Stream) : Prop :=
  ∃ used, s.Passes used rest

namespace Leaves

theorem refl (s : Stream) : s.Leaves s :=
  ⟨[], .refl s⟩

theorem skip (s : Stream) : s.Leaves s.skip := by
  by_cases hs : s.tokens = []
  · have hskip : s.skip = s := by rw [Stream.skip, hs]
    rw [hskip]
    exact refl s
  · exact ⟨[s.next], .skip hs⟩

theorem trans {s middle rest : Stream} (h : s.Leaves middle) (h' : middle.Leaves rest) :
    s.Leaves rest := by
  obtain ⟨used, hused⟩ := h
  obtain ⟨more, hmore⟩ := h'
  exact ⟨used ++ more, hused.trans hmore⟩

theorem size_le {s rest : Stream} (h : s.Leaves rest) : rest.size ≤ s.size := by
  obtain ⟨used, hused⟩ := h
  rw [hused.size_eq]
  exact Nat.le_add_left _ _

end Leaves

end Stream

/-- The outcome of reading something of type `α`. -/
inductive Reading (α : Type) where
  | read (value : α) (rest : Stream)
  | failed (finding : Finding) (rest : Stream)

namespace Reading

variable {α β : Type}

def rest : Reading α → Stream
  | read _ rest => rest
  | failed _ rest => rest

def bind (reading : Reading α) (f : α → Stream → Reading β) : Reading β :=
  match reading with
  | read value rest => f value rest
  | failed finding rest => failed finding rest

def map (f : α → β) (reading : Reading α) : Reading β :=
  reading.bind fun value rest ↦ read (f value) rest

@[simp] theorem bind_read (value : α) (s : Stream) (f : α → Stream → Reading β) :
    (read value s).bind f = f value s := rfl

@[simp] theorem bind_failed (finding : Finding) (s : Stream) (f : α → Stream → Reading β) :
    (failed finding s).bind f = failed finding s := rfl

end Reading

def Reader (α : Type) : Type := Stream → Reading α

namespace Reader

variable {α β : Type}

instance : Monad Reader where
  pure value := fun s ↦ .read value s
  bind reader f := fun s ↦ (reader s).bind fun value rest ↦ f value rest

@[simp] theorem pure_apply (value : α) (s : Stream) :
    (pure value : Reader α) s = .read value s := rfl

@[simp] theorem bind_apply (reader : Reader α) (f : α → Reader β) (s : Stream) :
    (reader >>= f) s = (reader s).bind fun value rest ↦ f value rest := rfl

def failHere (problem : Problem) : Reader α :=
  fun s ↦ .failed ⟨problem, s.next.span⟩ s

def peek : Reader Token :=
  fun s ↦ .read s.next s

def token : Reader Token :=
  fun s ↦ .read s.next s.skip

def optionalPunctuator (c : Char) : Reader Bool :=
  fun s ↦ if s.next.isPunctuator c then .read true s.skip else .read false s

def optionalWord (word : String) : Reader Bool :=
  fun s ↦ if s.next.isWord word then .read true s.skip else .read false s

def punctuator (c : Char) : Reader Token :=
  fun s ↦
    if s.next.isPunctuator c then .read s.next s.skip
    else failHere (.expected (String.ofList [c])) s

/-- Words that cannot name a variable. -/
def reservedWords : List String :=
  ["const", "let", "var", "import", "export", "true", "false"]

def isName (token : Token) : Bool :=
  token.kind == .word && !reservedWords.contains token.text

def ident : Reader Ident :=
  fun s ↦
    if isName s.next then .read ⟨s.next.text, s.next.span⟩ s.skip
    else failHere .identifierExpected s

/-- Read things separated by commas up to a closing punctuator, which is left to be read.  A comma
may follow the last thing.  The reading stops where an item took no token, which no reader of items
lets happen. -/
def separated (close : Char) (item : Reader α) (s : Stream) : Reading (List α) :=
  if s.next.isPunctuator close then .read [] s
  else
    match item s with
    | .failed finding rest => .failed finding rest
    | .read value rest =>
      if rest.next.isPunctuator ',' then
        if _h : rest.skip.size < s.size then
          (separated close item rest.skip).map (value :: ·)
        else .read [value] rest.skip
      else .read [value] rest
termination_by s.size

/-- A reader does nothing to a stream but take tokens from its front, also if it fails. -/
def Advances (reader : Reader α) : Prop :=
  ∀ s : Stream, s.Leaves (reader s).rest

theorem advances_pure (value : α) : Advances (pure value : Reader α) :=
  fun s ↦ .refl s

theorem advances_failHere (problem : Problem) : Advances (failHere problem : Reader α) :=
  fun s ↦ .refl s

theorem advances_peek : Advances peek :=
  fun s ↦ .refl s

theorem advances_token : Advances token :=
  fun s ↦ .skip s

theorem advances_optionalPunctuator (c : Char) : Advances (optionalPunctuator c) := by
  intro s
  unfold optionalPunctuator
  split
  · exact .skip s
  · exact .refl s

theorem advances_optionalWord (word : String) : Advances (optionalWord word) := by
  intro s
  unfold optionalWord
  split
  · exact .skip s
  · exact .refl s

theorem advances_punctuator (c : Char) : Advances (punctuator c) := by
  intro s
  unfold punctuator
  split
  · exact .skip s
  · exact .refl s

theorem advances_ident : Advances ident := by
  intro s
  unfold ident
  split
  · exact .skip s
  · exact .refl s

theorem Advances.bind {reader : Reader α} {f : α → Reader β} (h : Advances reader)
    (hf : ∀ value, Advances (f value)) : Advances (reader >>= f) := by
  intro s
  have hs := h s
  rw [bind_apply]
  cases hr : reader s with
  | read value rest =>
    rw [hr] at hs
    exact hs.trans (hf value rest)
  | failed finding rest =>
    rw [hr] at hs
    exact hs

/-- A reader that takes at least one token whenever it succeeds. -/
def Consumes (reader : Reader α) : Prop :=
  ∀ s value rest, reader s = .read value rest → rest.size < s.size

theorem Consumes.bind {reader : Reader α} {f : α → Reader β} (h : Consumes reader)
    (hf : ∀ value, Advances (f value)) : Consumes (reader >>= f) := by
  intro s value rest hread
  rw [bind_apply] at hread
  cases hr : reader s with
  | failed finding rest => simp [hr] at hread
  | read first middle =>
    rw [hr, Reading.bind_read] at hread
    have hle := (hf first middle).size_le
    rw [hread] at hle
    exact Nat.lt_of_le_of_lt hle (h s first middle hr)

theorem Advances.bind_consumes {reader : Reader α} {f : α → Reader β} (h : Advances reader)
    (hf : ∀ value, Consumes (f value)) : Consumes (reader >>= f) := by
  intro s value rest hread
  rw [bind_apply] at hread
  have hs := (h s).size_le
  cases hr : reader s with
  | failed finding rest => simp [hr] at hread
  | read first middle =>
    rw [hr] at hs hread
    exact Nat.lt_of_lt_of_le (hf first middle value rest hread) hs

/-- After a token has been taken from a stream that has one, what follows leaves fewer tokens. -/
theorem size_rest_token_bind_lt {s : Stream} (hs : s.tokens ≠ []) {f : Token → Reader α}
    (hf : ∀ value, Advances (f value)) : ((token >>= f) s).rest.size < s.size :=
  Nat.lt_of_le_of_lt (hf s.next s.skip).size_le (Stream.size_skip_lt hs)

theorem rest_map (f : α → β) (reading : Reading α) : (reading.map f).rest = reading.rest := by
  cases reading <;> rfl

theorem advances_separated (close : Char) {item : Reader α} (h : Advances item) :
    Advances (separated close item) := by
  intro s
  induction hn : s.size using Nat.strongRecOn generalizing s with
  | ind n ih =>
    subst hn
    rw [separated]
    have hs := h s
    split
    · exact .refl s
    · cases hr : item s with
      | failed finding rest =>
        rw [hr] at hs
        exact hs
      | read value rest =>
        rw [hr] at hs
        have hskip := hs.trans (.skip rest)
        dsimp only
        split
        · split
          · rename_i hlt
            rw [rest_map]
            exact hskip.trans (ih _ hlt rest.skip rfl)
          · exact hskip
        · exact hs

end Reader

end VersionSweep
