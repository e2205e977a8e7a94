import VersionSweep.Language.Expression
import VersionSweep.Proofs.Language.Outline

/-!
# Readers on rows of tokens

What a reader takes is told here without places: a row of tokens, what may follow it, and what is
read from it.  `Takes.bind` puts rows one behind the other, and things between commas are put
together from a first one and the others.
-/

namespace VersionSweep

open Token (Shape)

namespace Stream

def row (s : Stream) : List Shape :=
  s.tokens.map Token.shape

theorem size_eq_length_row (s : Stream) : s.size = s.row.length :=
  (List.length_map ..).symm

variable {s : Stream} {x : Shape} {more : List Shape}

theorem shape_next (h : s.row = x :: more) : s.next.shape = x := by
  obtain ⟨tokens, finish, lastStop⟩ := s
  cases tokens with
  | nil => cases h
  | cons token tokens => exact (List.cons.inj h).1

theorem row_skip (h : s.row = x :: more) : s.skip.row = more := by
  obtain ⟨tokens, finish, lastStop⟩ := s
  cases tokens with
  | nil => cases h
  | cons token tokens => exact (List.cons.inj h).2

theorem kind_next (h : s.row = x :: more) : s.next.kind = x.kind :=
  congrArg Shape.kind (shape_next h)

theorem text_next (h : s.row = x :: more) : s.next.text = x.text :=
  congrArg Shape.text (shape_next h)

theorem kind_next_of_nil (h : s.row = []) : s.next.kind = .endOfText := by
  obtain ⟨tokens, finish, lastStop⟩ := s
  cases tokens with
  | nil => rfl
  | cons token tokens => cases h

theorem isPunctuator_next (h : s.row = x :: more) (c : Char) :
    s.next.isPunctuator c = (x.kind == .punctuator c) := by
  rw [Token.isPunctuator, kind_next h]

theorem isWord_next (h : s.row = x :: more) (word : String) :
    s.next.isWord word = (x.kind == .word && x.text == word) := by
  rw [Token.isWord, kind_next h, text_next h]

end Stream

def Lacks (c : Char) (row : List Shape) : Prop :=
  ∀ x ∈ row.head?, x.kind ≠ .punctuator c

def Heads (c : Char) (row : List Shape) : Prop :=
  ∃ x more, row = x :: more ∧ x.kind = .punctuator c

theorem Heads.lacks {c d : Char} {row : List Shape} (h : Heads c row) (hne : c ≠ d) :
    Lacks d row := by
  obtain ⟨x, more, rfl, hx⟩ := h
  simp [Lacks, hx, hne]

theorem Heads.append {c : Char} {row : List Shape} (h : Heads c row) (more : List Shape) :
    Heads c (row ++ more) := by
  obtain ⟨x, tail, rfl, hx⟩ := h
  exact ⟨x, tail ++ more, rfl, hx⟩

theorem Lacks.append {c : Char} {row : List Shape} (h : Lacks c row) (hne : row ≠ [])
    (more : List Shape) : Lacks c (row ++ more) := by
  cases row with
  | nil => exact absurd rfl hne
  | cons x row => exact h

theorem Stream.isPunctuator_eq_false {s : Stream} {c : Char} (h : Lacks c s.row) :
    s.next.isPunctuator c = false := by
  cases hrow : s.row with
  | nil => simp [Token.isPunctuator, kind_next_of_nil hrow]
  | cons x more =>
    have hx := h x (by simp [hrow])
    simp [isPunctuator_next hrow, hx]

theorem Stream.isPunctuator_eq_true {s : Stream} {c : Char} (h : Heads c s.row) :
    s.next.isPunctuator c = true := by
  obtain ⟨x, more, hrow, hx⟩ := h
  simp [isPunctuator_next hrow, hx]

namespace Reader

variable {α β : Type}

/-- Whether a reader takes a row of tokens, whatever places they have, and reads something with a
property, if the row behind them is as stated. -/
def Takes (reader : Reader α) (row : List Shape) (follow : List Shape → Prop) (P : α → Prop) :
    Prop :=
  ∀ (s : Stream) (more : List Shape), s.row = row ++ more → follow more →
    ∃ value rest, reader s = .read value rest ∧ rest.row = more ∧ P value

variable {reader : Reader α} {row row' : List Shape} {follow follow' : List Shape → Prop}
  {P : α → Prop} {Q : β → Prop}

theorem Takes.mono {P' : α → Prop} (h : Takes reader row follow P)
    (hfollow : ∀ more, follow' more → follow more) (himp : ∀ value, P value → P' value) :
    Takes reader row follow' P' := by
  intro s more hrow hmore
  obtain ⟨value, rest, hread, hrest, hvalue⟩ := h s more hrow (hfollow more hmore)
  exact ⟨value, rest, hread, hrest, himp value hvalue⟩

theorem takes_pure {value : α} (h : P value) : Takes (pure value) [] follow P :=
  fun s _ hrow _ ↦ ⟨value, s, rfl, hrow, h⟩

theorem Takes.bind {f : α → Reader β} (h : Takes reader row follow P)
    (hfollow : ∀ more, follow' more → follow (row' ++ more))
    (hf : ∀ value, P value → Takes (f value) row' follow' Q) :
    Takes (reader >>= f) (row ++ row') follow' Q := by
  intro s more hrow hmore
  rw [List.append_assoc] at hrow
  obtain ⟨value, middle, hread, hmiddle, hvalue⟩ := h s _ hrow (hfollow more hmore)
  obtain ⟨result, rest, hread', hrest, hresult⟩ := hf value hvalue middle more hmiddle hmore
  refine ⟨result, rest, ?_, hrest, hresult⟩
  rw [bind_apply, hread, Reading.bind_read, hread']

theorem takes_token (x : Shape) :
    Takes token [x] (fun _ ↦ True) (·.shape = x) :=
  fun s _ hrow _ ↦ ⟨s.next, s.skip, rfl, Stream.row_skip hrow, Stream.shape_next hrow⟩

theorem takes_punctuator {c : Char} {x : Shape} (hx : x.kind = .punctuator c) :
    Takes (punctuator c) [x] (fun _ ↦ True) (·.shape = x) := by
  intro s more hrow _
  refine ⟨s.next, s.skip, ?_, Stream.row_skip hrow, Stream.shape_next hrow⟩
  rw [punctuator, if_pos (Stream.isPunctuator_eq_true ⟨x, more, hrow, hx⟩)]

theorem takes_optionalPunctuator {c : Char} {x : Shape} (hx : x.kind = .punctuator c) :
    Takes (optionalPunctuator c) [x] (fun _ ↦ True) (· = true) := by
  intro s more hrow _
  refine ⟨true, s.skip, ?_, Stream.row_skip hrow, rfl⟩
  rw [optionalPunctuator, if_pos (Stream.isPunctuator_eq_true ⟨x, more, hrow, hx⟩)]

theorem takes_optionalPunctuator_nil (c : Char) :
    Takes (optionalPunctuator c) [] (Lacks c) (· = false) := by
  intro s more hrow hlacks
  obtain rfl : s.row = more := hrow
  refine ⟨false, s, ?_, rfl, rfl⟩
  rw [optionalPunctuator, Stream.isPunctuator_eq_false hlacks]
  rfl

theorem takes_optionalWord (word : String) :
    Takes (optionalWord word) [.word word] (fun _ ↦ True) (· = true) := by
  intro s more hrow _
  refine ⟨true, s.skip, ?_, Stream.row_skip hrow, rfl⟩
  rw [optionalWord, Stream.isWord_next hrow]
  simp

/-- A word that is not there is passed over. -/
theorem takes_optionalWord_nil (word : String) :
    Takes (optionalWord word) [] (∃ x more, · = x :: more ∧ x ≠ .word word) (· = false) := by
  rintro s _ hrow ⟨x, more, rfl, hx⟩
  refine ⟨false, s, ?_, hrow, rfl⟩
  have hword : s.next.isWord word = false := by
    rw [Stream.isWord_next hrow]
    obtain ⟨kind, text⟩ := x
    simpa [Shape.word] using hx
  rw [optionalWord, hword]
  rfl

theorem takes_ident {name : String} (h : name ∉ reservedWords) :
    Takes ident [.word name] (fun _ ↦ True) (·.text = name) := by
  intro s more hrow _
  have hname : isName s.next = true := by
    simp [isName, Stream.kind_next hrow, Stream.text_next hrow, h]
  refine ⟨⟨s.next.text, s.next.span⟩, s.skip, ?_, Stream.row_skip hrow, Stream.text_next hrow⟩
  rw [ident, if_pos hname]

variable {close : Char} {item : Reader α} {erase : α → β} {b : β} {bs : List β}

theorem takes_separated_nil :
    Takes (separated close item) [] (Heads close) (·.map erase = []) := by
  intro s more hrow hmore
  obtain rfl : s.row = more := hrow
  refine ⟨[], s, ?_, rfl, rfl⟩
  rw [separated, if_pos (Stream.isPunctuator_eq_true hmore)]

theorem takes_separated_last (hitem : Takes item row follow (erase · = b))
    (hfollow : ∀ more, Heads close more → follow more) (hne : row ≠ []) (hrow : Lacks close row)
    (hclose : close ≠ ',') :
    Takes (separated close item) row (Heads close) (·.map erase = [b]) := by
  intro s more hs hmore
  obtain ⟨value, rest, hread, rfl, hvalue⟩ := hitem s more hs (hfollow more hmore)
  have hopen : s.next.isPunctuator close = false :=
    Stream.isPunctuator_eq_false (hs ▸ hrow.append hne _)
  have hlast : rest.next.isPunctuator ',' = false :=
    Stream.isPunctuator_eq_false (hmore.lacks hclose)
  refine ⟨[value], rest, ?_, rfl, by simp [hvalue]⟩
  rw [separated, hopen, hread]
  simp [hlast]

theorem takes_separated_cons {comma : Shape} (hitem : Takes item row follow (erase · = b))
    (hfollow : ∀ more, Heads ',' more → follow more) (hne : row ≠ []) (hrow : Lacks close row)
    (hcomma : comma.kind = .punctuator ',')
    (hmore : Takes (separated close item) row' (Heads close) (·.map erase = bs)) :
    Takes (separated close item) (row ++ comma :: row') (Heads close)
      (·.map erase = b :: bs) := by
  intro s more hs hclose
  have hopen : s.next.isPunctuator close = false := by
    rw [List.append_assoc] at hs
    exact Stream.isPunctuator_eq_false (hs ▸ hrow.append hne _)
  obtain ⟨value, middle, hread, hmiddle, hvalue⟩ := hitem s (comma :: (row' ++ more))
    (by simpa using hs)
    (hfollow _ ⟨comma, row' ++ more, rfl, hcomma⟩)
  have hnext : middle.next.isPunctuator ',' = true :=
    Stream.isPunctuator_eq_true ⟨comma, row' ++ more, hmiddle, hcomma⟩
  have hskip := Stream.row_skip hmiddle
  have hshorter : middle.skip.size < s.size := by
    rw [Stream.size_eq_length_row, Stream.size_eq_length_row, hskip, hs]
    simp
    omega
  obtain ⟨values, rest, hreads, hrest, hvalues⟩ := hmore middle.skip more hskip hclose
  refine ⟨value :: values, rest, ?_, hrest, by simp [hvalue, hvalues]⟩
  rw [separated, hopen, hread]
  simp [hnext, hshorter, hreads, Reading.map]

end Reader

end VersionSweep
