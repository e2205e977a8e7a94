import VersionSweep.Proofs.Language.Literals

/-!
# Where the decoding of a literal stops

A string literal is walked over twice, once to find its end and once to read what it stands for.
Both walks go by the same pieces: a character by itself, or a backslash with the character behind
it.  So they stop at the same quote, and that can be said without a look into the decoding: what a
literal stands for is settled by its text and by no beginning of it, `settled_literal_iff` and
`eq_of_settled`.
-/

namespace VersionSweep.Quoted

inductive Piece where
  | plain (c : Char)
  /-- A backslash with the character that it takes with it. -/
  | escape (c : Char)
  deriving DecidableEq, Repr

namespace Piece

def text : Piece → List Char
  | plain c => [c]
  | escape c => ['\\', c]

def value : Piece → Char
  | plain c => c
  | escape c => escaped c

/-- Whether a piece can stand between two quotes of a kind.  A backslash takes any character. -/
def FitsIn (quote : Char) : Piece → Prop
  | plain c => c ≠ '\\' ∧ c ≠ quote ∧ ¬(c = '\n' ∨ c = '\r')
  | escape _ => True

/-- The piece that is written for a character between two quotes of a kind. -/
def writing (quote c : Char) : Piece :=
  if c = '\n' then escape 'n'
  else if c = '\r' then escape 'r'
  else if c = '\t' then escape 't'
  else if c = '\\' ∨ c = quote then escape c
  else plain c

theorem fitsIn_writing (quote c : Char) : (writing quote c).FitsIn quote := by
  unfold writing
  split
  case isTrue => trivial
  split
  case isTrue => trivial
  split
  case isTrue => trivial
  split
  case isTrue => trivial
  case isFalse hfeed hreturn _ hmark =>
    obtain ⟨hescape, hquote⟩ := not_or.1 hmark
    exact ⟨hescape, hquote, not_or.2 ⟨hfeed, hreturn⟩⟩

/-- No character that is escaped by itself is one of the letters that stand for something else. -/
theorem value_writing {quote : Char} (hquote : IsQuote quote) (c : Char) :
    (writing quote c).value = c := by
  unfold writing
  split
  case isTrue hfeed => exact hfeed.symm
  split
  case isTrue hreturn => exact hreturn.symm
  split
  case isTrue htab => exact htab.symm
  split
  case isTrue hmark =>
    rcases hmark with rfl | rfl
    · rfl
    · rcases hquote with rfl | rfl
      · rfl
      · rfl
  case isFalse => rfl

end Piece

def literal (quote : Char) (pieces : List Piece) : List Char :=
  quote :: (pieces.flatMap Piece.text ++ [quote])

/-- Whether the decoding of a text has come to its end in the text: nothing that is put behind the
text changes what is decoded. -/
def Settled (cs : List Char) : Prop :=
  ∀ more, unquote (cs ++ more) = unquote cs

section Pieces

variable {quote : Char} {pieces : List Piece}

theorem Closes.exists_pieces {body : List Char} (h : Closes quote body) :
    ∃ pieces : List Piece, (∀ piece ∈ pieces, piece.FitsIn quote) ∧
      body = pieces.flatMap Piece.text ++ [quote] := by
  induction h with
  | quote => exact ⟨[], nofun, rfl⟩
  | @escaped c rest _ ih =>
    obtain ⟨pieces, hpieces, rfl⟩ := ih
    exact ⟨.escape c :: pieces, List.forall_mem_cons.2 ⟨trivial, hpieces⟩, rfl⟩
  | @plain c rest hescape hquote hbreak _ ih =>
    obtain ⟨pieces, hpieces, rfl⟩ := ih
    exact ⟨.plain c :: pieces,
      List.forall_mem_cons.2 ⟨⟨hescape, hquote, hbreak⟩, hpieces⟩, rfl⟩

theorem closes_pieces (h : ∀ piece ∈ pieces, piece.FitsIn quote) :
    Closes quote (pieces.flatMap Piece.text ++ [quote]) := by
  induction pieces with
  | nil => exact .quote
  | cons piece pieces ih =>
    obtain ⟨hpiece, hpieces⟩ := List.forall_mem_cons.1 h
    have hrest := ih hpieces
    rw [List.flatMap_cons, List.append_assoc]
    cases piece with
    | plain c => exact .plain hpiece.1 hpiece.2.1 hpiece.2.2 hrest
    | escape c => exact .escaped hrest

theorem unescape_pieces (hquote : quote ≠ '\\') (h : ∀ piece ∈ pieces, piece.FitsIn quote) :
    unescape quote (pieces.flatMap Piece.text ++ [quote]) = pieces.map Piece.value := by
  induction pieces with
  | nil =>
    rw [List.flatMap_nil, List.nil_append, unescape_cons_of_ne quote hquote, if_pos rfl]
    rfl
  | cons piece pieces ih =>
    obtain ⟨hpiece, hpieces⟩ := List.forall_mem_cons.1 h
    have hrest := ih hpieces
    rw [List.flatMap_cons, List.append_assoc, List.map_cons, ← hrest]
    cases piece with
    | plain c =>
      obtain ⟨hescape, hother, -⟩ := hpiece
      rw [Piece.text, List.singleton_append, unescape_cons_of_ne quote hescape, if_neg hother]
      rfl
    | escape c => rfl

end Pieces

/-- The text behind the quote at which a decoding stops, counted from behind the opening quote of a
literal. -/
def unread? (quote : Char) : List Char → Option (List Char)
  | [] => none
  | ['\\'] => none
  | '\\' :: _ :: rest => unread? quote rest
  | c :: rest => if c = quote then some rest else unread? quote rest

theorem unread?_cons_of_ne (quote : Char) {c : Char} (hc : c ≠ '\\') (rest : List Char) :
    unread? quote (c :: rest) = if c = quote then some rest else unread? quote rest := by
  rw [unread?]
  · exact fun h ↦ absurd h hc
  · exact fun _ _ h ↦ absurd h hc

section Unread

variable {quote : Char} {cs rest : List Char}

/-- A decoding that has stopped is the same with more behind it, and leaves more unread. -/
theorem unescape_and_unread?_append (h : unread? quote cs = some rest) (more : List Char) :
    unescape quote (cs ++ more) = unescape quote cs ∧
      unread? quote (cs ++ more) = some (rest ++ more) := by
  fun_induction unread? quote cs with
  | case1 => cases h
  | case2 => cases h
  | case3 c cs ih =>
    obtain ⟨hvalue, hunread⟩ := ih h
    exact ⟨congrArg (_ :: ·) hvalue, hunread⟩
  | case4 cs hc hc' =>
    obtain rfl := Option.some.inj h
    have hne := ne_backslash hc hc'
    rw [List.cons_append, unescape_cons_of_ne _ hne, unescape_cons_of_ne _ hne,
      unread?_cons_of_ne _ hne, if_pos rfl, if_pos rfl, if_pos rfl]
    exact ⟨rfl, rfl⟩
  | case5 c cs hc hc' hother ih =>
    obtain ⟨hvalue, hunread⟩ := ih h
    have hne := ne_backslash hc hc'
    rw [List.cons_append, unescape_cons_of_ne _ hne, unescape_cons_of_ne _ hne,
      unread?_cons_of_ne _ hne, if_neg hother, if_neg hother, if_neg hother, hvalue]
    exact ⟨rfl, hunread⟩

/-- A decoding that has not stopped takes one more character if there is one. -/
theorem length_unescape_concat (h : unread? quote cs = none) {c : Char} (hescape : c ≠ '\\')
    (hquote : c ≠ quote) :
    (unescape quote (cs ++ [c])).length = (unescape quote cs).length + 1 := by
  fun_induction unread? quote cs with
  | case1 =>
    rw [List.nil_append, unescape_cons_of_ne _ hescape, if_neg hquote]
    rfl
  | case2 => rfl
  | case3 d cs ih => exact congrArg (· + 1) (ih h)
  | case4 => cases h
  | case5 d cs hd hd' hother ih =>
    have hne := ne_backslash hd hd'
    rw [List.cons_append, unescape_cons_of_ne _ hne, unescape_cons_of_ne _ hne, if_neg hother,
      if_neg hother, List.length_cons, List.length_cons, ih h]

theorem settled_cons_iff (hquote : IsQuote quote) :
    Settled (quote :: cs) ↔ (unread? quote cs).isSome := by
  constructor
  · intro h
    by_contra hnone
    -- Any character would do that is no backslash and no quote.
    have hlength := length_unescape_concat (c := 'x') (Option.not_isSome_iff_eq_none.1 hnone)
      (by decide) (by rcases hquote with rfl | rfl <;> decide)
    have hsame : unescape quote (cs ++ ['x']) = unescape quote cs := h ['x']
    rw [hsame] at hlength
    omega
  · intro h more
    obtain ⟨rest, hrest⟩ := Option.isSome_iff_exists.1 h
    exact (unescape_and_unread?_append hrest more).1

theorem not_settled_nil : ¬Settled [] := by
  intro h
  have hsame := h ['x', 'y']
  exact absurd hsame (by decide)

/-- The decoding of what the search for the end of a literal has passed over stops where the search
does: with the text if there is a closing quote, and not at all otherwise. -/
theorem unread?_body_scan (quote : Char) (cs : List Char) :
    unread? quote (scan quote cs).body = if (scan quote cs).closed then some [] else none := by
  fun_induction scan quote cs with
  | case1 => rfl
  | case2 => rfl
  | case3 c cs ih => exact ih
  | case4 => rfl
  | case5 cs hc hc' =>
    rw [unread?_cons_of_ne _ (ne_backslash hc hc'), if_pos rfl]
    rfl
  | case6 c cs hc hc' hbreak hother ih =>
    rw [Scan.push, List.singleton_append, unread?_cons_of_ne _ (ne_backslash hc hc'),
      if_neg hother]
    exact ih

/-- A literal stands for what is in it up to the closing quote. -/
theorem unescape_body_scan (quote : Char) (cs : List Char) (h : (scan quote cs).closed = true) :
    unescape quote (scan quote cs).body = unescape quote cs := by
  have hstop := unread?_body_scan quote cs
  rw [if_pos h] at hstop
  have hvalue := (unescape_and_unread?_append hstop (scan quote cs).rest).1
  rw [scan_append] at hvalue
  exact hvalue.symm

theorem settled_literal_iff (hquote : IsQuote quote) (cs : List Char) :
    Settled (quote :: (scan quote cs).body) ↔ IsLiteral (quote :: (scan quote cs).body) := by
  rw [settled_cons_iff hquote, unread?_body_scan, ← closed_scan_iff hquote]
  cases (scan quote cs).closed with
  | true => decide
  | false => decide

/-- No beginning of what was passed over settles it, but the whole may. -/
theorem eq_of_settled (hquote : IsQuote quote) {front : List Char}
    (hfront : front <+: quote :: (scan quote cs).body) (h : Settled front) :
    front = quote :: (scan quote cs).body := by
  cases front with
  | nil => exact absurd h not_settled_nil
  | cons c front =>
    obtain ⟨more, hmore⟩ := hfront
    rw [List.cons_append] at hmore
    obtain ⟨rfl, hbody⟩ := List.cons.inj hmore
    obtain ⟨rest, hrest⟩ := Option.isSome_iff_exists.1 ((settled_cons_iff hquote).1 h)
    have hstop := (unescape_and_unread?_append hrest more).2
    rw [hbody, unread?_body_scan] at hstop
    split at hstop
    · obtain ⟨-, rfl⟩ := List.append_eq_nil_iff.1 (Option.some.inj hstop).symm
      rw [← hbody, List.append_nil]
    · cases hstop

end Unread

end VersionSweep.Quoted
