import VersionSweep.Language.Stream
import VersionSweep.Proofs.Text.Boundary

/-!
# What readers read

A stream is orderly when its tokens come one behind the other and all belong to a given class.  A
reading of an orderly stream leaves one, never goes back, and either reads something with a stated
property or fails at a token of the class.  `Reading.From.bind` chains such readings, so that each
reader below has one lemma.
-/

namespace VersionSweep

variable {T : Token → Prop}

/-- Whether a span begins where a token begins and stops where a token stops or the text begins, and
has the given parts one behind the other. -/
structure Span.Frames (T : Token → Prop) (span : Span) (parts : List Span) : Prop where
  start : ∃ token, T token ∧ token.span.start = span.start
  stop : span.stop = 0 ∨ ∃ token, T token ∧ token.span.stop = span.stop
  row : Span.Row span.stop span.start parts

def Ident.Of (T : Token → Prop) (ident : Ident) : Prop :=
  ∃ token, T token ∧ token.kind = .word ∧ token.text = ident.text ∧ token.span = ident.span

structure Stream.Orderly (T : Token → Prop) (s : Stream) : Prop where
  tokens : ∀ token ∈ s.tokens, T token
  row : Span.Row s.finish.offset s.lastStop (s.tokens.map Token.span)
  finish : T s.finish.token
  lastStop : s.lastStop = 0 ∨ ∃ token, T token ∧ token.span.stop = s.lastStop

namespace Stream.Orderly

theorem next {s : Stream} (h : s.Orderly T) : T s.next := by
  obtain ⟨tokens, finish, lastStop⟩ := s
  cases tokens with
  | nil => exact h.finish
  | cons token rest => exact h.tokens token (List.mem_cons_self ..)

theorem lastStop_le_next {s : Stream} (h : s.Orderly T) : s.lastStop ≤ s.next.span.start := by
  obtain ⟨tokens, finish, lastStop⟩ := s
  cases tokens with
  | nil => exact h.row
  | cons token rest => exact h.row.1

theorem next_le {s : Stream} (h : s.Orderly T) : s.next.span.start ≤ s.next.span.stop := by
  obtain ⟨tokens, finish, lastStop⟩ := s
  cases tokens with
  | nil => exact Nat.le_refl _
  | cons token rest => exact h.row.2.1

theorem skip {s : Stream} (h : s.Orderly T) : s.skip.Orderly T := by
  obtain ⟨tokens, finish, lastStop⟩ := s
  cases tokens with
  | nil => exact h
  | cons token rest =>
    refine ⟨fun other hother ↦ h.tokens other (List.mem_cons_of_mem _ hother), h.row.2.2, h.finish,
      .inr ⟨token, h.tokens token (List.mem_cons_self ..), rfl⟩⟩

theorem lastStop_le_skip {s : Stream} (h : s.Orderly T) : s.lastStop ≤ s.skip.lastStop := by
  obtain ⟨tokens, finish, lastStop⟩ := s
  cases tokens with
  | nil => exact Nat.le_refl _
  | cons token rest => exact Nat.le_trans h.row.1 h.row.2.1

theorem next_le_next_skip {s : Stream} (h : s.Orderly T) :
    s.next.span.start ≤ s.skip.next.span.start := by
  obtain ⟨tokens, finish, lastStop⟩ := s
  cases tokens with
  | nil => exact Nat.le_refl _
  | cons token rest => exact Nat.le_trans h.next_le h.skip.lastStop_le_next

end Stream.Orderly

theorem Stream.Passes.orderly_and_lastStop_le {s rest : Stream} {used : List Token}
    (h : s.Passes used rest) (hs : s.Orderly T) : rest.Orderly T ∧ s.lastStop ≤ rest.lastStop := by
  induction h with
  | refl => exact ⟨hs, Nat.le_refl _⟩
  | step _ _ ih =>
    obtain ⟨horderly, hle⟩ := ih hs.skip
    exact ⟨horderly, Nat.le_trans hs.lastStop_le_skip hle⟩

namespace Stream.Leaves

variable {s rest : Stream}

theorem orderly (h : s.Leaves rest) (hs : s.Orderly T) : rest.Orderly T := by
  obtain ⟨used, hused⟩ := h
  exact (hused.orderly_and_lastStop_le hs).1

theorem lastStop_le (h : s.Leaves rest) (hs : s.Orderly T) : s.lastStop ≤ rest.lastStop := by
  obtain ⟨used, hused⟩ := h
  exact (hused.orderly_and_lastStop_le hs).2

end Stream.Leaves

theorem Stream.lastStop_skip {s : Stream} (h : s.tokens ≠ []) :
    s.skip.lastStop = s.next.span.stop := by
  obtain ⟨tokens, finish, lastStop⟩ := s
  cases tokens with
  | nil => exact absurd rfl h
  | cons token rest => rfl

/-- A span that was read: it begins no further back than `low` and stops where the reading stopped.
-/
structure Span.Took (low : Nat) (rest : Stream) (span : Span) : Prop where
  low : low ≤ span.start
  le : span.start ≤ span.stop
  stop : span.stop = rest.lastStop

theorem Span.Took.row {low : Nat} {rest : Stream} {span : Span} (h : span.Took low rest) :
    Span.Row rest.lastStop low [span] :=
  ⟨h.low, h.le, Nat.le_of_eq h.stop⟩

namespace Reading

variable {α β : Type}

/-- What a reading that began at `low` has to keep to: the stream it leaves is orderly and no
further back, what it read has the property, and what it failed with is about a token. -/
def From (T : Token → Prop) (low : Nat) (P : α → Stream → Prop) : Reading α → Prop
  | read value rest => rest.Orderly T ∧ low ≤ rest.lastStop ∧ P value rest
  | failed finding rest =>
    rest.Orderly T ∧ low ≤ rest.lastStop ∧ ∃ token, T token ∧ token.span = finding.span

theorem From.mono {low low' : Nat} {P Q : α → Stream → Prop} {reading : Reading α}
    (h : reading.From T low P) (hlow : low' ≤ low)
    (himp : ∀ value rest, rest.Orderly T → low ≤ rest.lastStop → P value rest → Q value rest) :
    reading.From T low' Q := by
  cases reading with
  | read value rest =>
    exact ⟨h.1, Nat.le_trans hlow h.2.1, himp value rest h.1 h.2.1 h.2.2⟩
  | failed finding rest => exact ⟨h.1, Nat.le_trans hlow h.2.1, h.2.2⟩

theorem From.bind {low : Nat} {P : α → Stream → Prop} {Q : β → Stream → Prop}
    {reading : Reading α} {f : α → Stream → Reading β} (h : reading.From T low P)
    (hf : ∀ value rest, rest.Orderly T → low ≤ rest.lastStop → P value rest →
      (f value rest).From T rest.lastStop Q) :
    (reading.bind f).From T low Q := by
  cases reading with
  | read value rest =>
    exact (hf value rest h.1 h.2.1 h.2.2).mono h.2.1 fun _ _ _ _ hq ↦ hq
  | failed finding rest => exact h

theorem From.map {low : Nat} {P : α → Stream → Prop} {Q : β → Stream → Prop}
    {reading : Reading α} {f : α → β} (h : reading.From T low P)
    (himp : ∀ value rest, rest.Orderly T → low ≤ rest.lastStop → P value rest →
      Q (f value) rest) :
    (reading.map f).From T low Q :=
  h.bind fun value rest hrest hlow hp ↦
    ⟨hrest, Nat.le_refl _, himp value rest hrest hlow hp⟩

end Reading

namespace Reader

variable {α β : Type} {s : Stream}

theorem from_pure {value : α} {P : α → Stream → Prop} (h : s.Orderly T) (hp : P value s) :
    ((pure value : Reader α) s).From T s.lastStop P :=
  ⟨h, Nat.le_refl _, hp⟩

theorem from_failHere {problem : Problem} {P : α → Stream → Prop} (h : s.Orderly T) :
    (failHere problem s : Reading α).From T s.lastStop P :=
  ⟨h, Nat.le_refl _, s.next, h.next, rfl⟩

theorem from_skip {value : α} {P : α → Stream → Prop} (h : s.Orderly T) (hp : P value s.skip) :
    (Reading.read value s.skip).From T s.lastStop P :=
  ⟨h.skip, h.lastStop_le_skip, hp⟩

/-- What a reader leaves that takes a token only if it is the one asked for. -/
def Optional (s : Stream) (found : Bool) (rest : Stream) : Prop :=
  found = true ∧ rest = s.skip ∨ found = false ∧ rest = s

theorem Optional.next_le {found : Bool} {rest : Stream} (h : s.Orderly T)
    (hrest : Optional s found rest) : s.next.span.start ≤ rest.next.span.start := by
  obtain ⟨-, rfl⟩ | ⟨-, rfl⟩ := hrest
  · exact h.next_le_next_skip
  · exact Nat.le_refl _

theorem from_optionalPunctuator (c : Char) (h : s.Orderly T) :
    (optionalPunctuator c s).From T s.lastStop (Optional s) := by
  unfold optionalPunctuator
  split
  · exact from_skip h (.inl ⟨rfl, rfl⟩)
  · exact from_pure h (.inr ⟨rfl, rfl⟩)

theorem from_optionalWord (word : String) (h : s.Orderly T) :
    (optionalWord word s).From T s.lastStop (Optional s) := by
  unfold optionalWord
  split
  · exact from_skip h (.inl ⟨rfl, rfl⟩)
  · exact from_pure h (.inr ⟨rfl, rfl⟩)

theorem took_next (h : s.Orderly T) (hs : s.tokens ≠ []) :
    s.next.span.Took s.lastStop s.skip :=
  ⟨h.lastStop_le_next, h.next_le, (Stream.lastStop_skip hs).symm⟩

theorem from_punctuator (c : Char) (h : s.Orderly T) :
    (punctuator c s).From T s.lastStop fun token rest ↦
      T token ∧ token.span.Took s.lastStop rest := by
  unfold punctuator
  split
  · rename_i hpunctuator
    exact from_skip h ⟨h.next, took_next h (Stream.ne_nil_of_isPunctuator hpunctuator)⟩
  · exact from_failHere h

theorem from_ident (h : s.Orderly T) :
    (ident s).From T s.lastStop fun name rest ↦
      name.Of T ∧ name.span.Took s.lastStop rest := by
  unfold ident
  split
  · rename_i hname
    have hkind : s.next.kind = .word := by
      rw [isName, Bool.and_eq_true, beq_iff_eq] at hname
      exact hname.1
    have hs : s.tokens ≠ [] := Stream.ne_nil_of_kind_ne (by rw [hkind]; simp)
    exact from_skip h ⟨⟨s.next, h.next, hkind, rfl, rfl⟩, took_next h hs⟩
  · exact from_failHere h

theorem from_separated {close : Char} {item : Reader α} {P : α → Prop} {span : α → Span}
    (hitem : ∀ s : Stream, s.Orderly T → (item s).From T s.lastStop fun value rest ↦
      P value ∧ (span value).Took s.lastStop rest) (h : s.Orderly T) :
    (separated close item s).From T s.lastStop fun values rest ↦
      (∀ value ∈ values, P value) ∧ Span.Row rest.lastStop s.lastStop (values.map span) := by
  have hfirst (s : Stream) (h : s.Orderly T) (value : α) (middle : Stream)
      (hread : item s = .read value middle) : middle.Orderly T ∧ s.lastStop ≤ middle.lastStop ∧
        P value ∧ (span value).Took s.lastStop middle := by
    have hplace := hitem s h
    rwa [hread] at hplace
  fun_induction separated close item s with
  | case1 s hclosed => exact ⟨h, Nat.le_refl _, by simp, Nat.le_refl _⟩
  | case2 s hopen finding rest hread =>
    have hfailed := hitem s h
    rwa [hread] at hfailed
  | case3 s hopen value middle hread hcomma hshorter ih =>
    obtain ⟨hmiddle, hlow, hvalue, htook⟩ := hfirst s h value middle hread
    have hskip := hmiddle.lastStop_le_skip
    refine ((ih hmiddle.skip).map ?_).mono (Nat.le_trans hlow hskip) fun _ _ _ _ hq ↦ hq
    rintro values final - - ⟨hvalues, hmore⟩
    refine ⟨by simpa [hvalue] using hvalues, ?_⟩
    exact htook.row.append (hmore.mono hskip (Nat.le_refl _))
  | case4 s hopen value middle hread hcomma hlong =>
    obtain ⟨hmiddle, hlow, hvalue, htook⟩ := hfirst s h value middle hread
    have hskip := hmiddle.lastStop_le_skip
    exact ⟨hmiddle.skip, Nat.le_trans hlow hskip, by simpa using hvalue,
      htook.row.mono (Nat.le_refl _) hskip⟩
  | case5 s hopen value middle hread hlast =>
    obtain ⟨hmiddle, hlow, hvalue, htook⟩ := hfirst s h value middle hread
    exact ⟨hmiddle, hlow, by simpa using hvalue, htook.row⟩

end Reader

end VersionSweep
