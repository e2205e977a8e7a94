import VersionSweep.Proofs.Language.Cutting

/-!
# Outlines of texts

The outline of a text is the row of its tokens without their places.  A piece that is cut out of a
text from the beginning of one token to the end of another keeps its part of the outline in other
surroundings, provided that nothing comes behind it that would go on with its last token.
-/

namespace VersionSweep

namespace Token

structure Shape where
  kind : TokenKind
  text : String
  deriving DecidableEq, Repr

namespace Shape

def word (text : String) : Shape :=
  ⟨.word, text⟩

def mark (c : Char) : Shape :=
  ⟨.punctuator c, String.ofList [c]⟩

def quoted (body : List Char) : Shape :=
  ⟨.string, String.ofList ('"' :: (body ++ ['"']))⟩

@[simp] theorem kind_quoted (body : List Char) : (quoted body).kind = .string := rfl

@[simp] theorem kind_word (text : String) : (word text).kind = .word := rfl

@[simp] theorem text_word (text : String) : (word text).text = text := rfl

@[simp] theorem kind_mark (c : Char) : (mark c).kind = .punctuator c := rfl

end Shape

def shape (token : Token) : Shape :=
  ⟨token.kind, token.text⟩

@[simp] theorem kind_shape (token : Token) : token.shape.kind = token.kind := rfl

def Gap.findings (gap : Gap) (stop : Nat) : List Finding :=
  if gap.closed then [] else [⟨.unclosedComment, ⟨stop, stop⟩⟩]

/-- A text that is nothing but a gap. -/
theorem scan_of_rest_nil {cs : List Char} {lead : Gap} (hlead : gap .blanks cs = lead)
    (hrest : lead.rest = []) (offset : Nat) :
    let stop := offset + Text.byteLength lead.text
    scan offset cs = ⟨[], ⟨stop, lead.text.contains '\n'⟩, lead.findings stop⟩ := by
  subst hlead
  rw [scan, broken_gap]
  dsimp only
  split
  · rfl
  · simp_all

/-- A text with a lexeme behind its first gap. -/
theorem scan_of_rest_cons {cs rest : List Char} {lead : Gap} {c : Char}
    (hlead : gap .blanks cs = lead) (hrest : lead.rest = c :: rest) (offset : Nat) :
    let start := offset + Text.byteLength lead.text
    let found := lexeme c rest
    let span : Span := ⟨start, start + Text.byteLength found.text⟩
    let tail := scan span.stop found.rest
    scan offset cs = ⟨⟨found.kind, String.ofList found.text, span, lead.text.contains '\n'⟩ ::
      tail.tokens, tail.finish,
      lead.findings start ++ (found.problem.toList.map fun problem ↦ ⟨problem, span⟩) ++
        tail.findings⟩ := by
  subst hlead
  rw [scan, broken_gap]
  dsimp only
  split
  · simp_all
  · rename_i d more hmore
    obtain ⟨rfl, rfl⟩ := List.cons.inj (hmore.symm.trans hrest)
    rfl

theorem scan_of_gap_nil {cs lead : List Char} (hgap : gap .blanks cs = .of lead [] true)
    (offset : Nat) :
    scan offset cs = ⟨[], ⟨offset + Text.byteLength lead, lead.contains '\n'⟩, []⟩ :=
  scan_of_rest_nil hgap rfl offset

theorem scan_of_lexeme {cs lead rest text more : List Char} {c : Char} {kind : TokenKind}
    (hgap : gap .blanks cs = .of lead (c :: rest) true)
    (hlexeme : lexeme c rest = ⟨kind, text, more, none⟩) (offset : Nat) :
    let start := offset + Text.byteLength lead
    let tail := scan (start + Text.byteLength text) more
    scan offset cs = ⟨⟨kind, String.ofList text, ⟨start, start + Text.byteLength text⟩,
      lead.contains '\n'⟩ :: tail.tokens, tail.finish, tail.findings⟩ := by
  rw [scan_of_rest_cons hgap rfl, hlexeme]
  rfl

/-- How a text begins in which nothing is wrong. -/
theorem exists_lexeme_of_scan {cs : List Char} {offset : Nat} {token : Token}
    {tokens : List Token}
    (hclean : (scan offset cs).findings = [])
    (htokens : (scan offset cs).tokens = token :: tokens) :
    ∃ lead c body more kind, gap .blanks cs = .of lead (c :: (body ++ more)) true ∧
      lexeme c (body ++ more) = ⟨kind, c :: body, more, none⟩ ∧
      token.shape = ⟨kind, String.ofList (c :: body)⟩ ∧
      token.span = ⟨offset + Text.byteLength lead, offset + Text.byteLength (lead ++ c :: body)⟩ ∧
      (scan (offset + Text.byteLength (lead ++ c :: body)) more).findings = [] ∧
      (scan (offset + Text.byteLength (lead ++ c :: body)) more).tokens = tokens := by
  obtain ⟨lead, rest, closed, hgap⟩ : ∃ lead rest closed, gap .blanks cs = .of lead rest closed :=
    ⟨_, _, _, gap_eq_of .blanks cs⟩
  have hclosed : closed = true := by
    by_contra hopen
    rw [scan] at hclean
    dsimp only at hclean
    split at hclean <;> simp_all
  subst hclosed
  cases rest with
  | nil =>
    rw [scan_of_gap_nil hgap] at htokens
    cases htokens
  | cons c rest =>
    rcases hlexeme : lexeme c rest with ⟨kind, text, more, problem⟩
    have hproblem : problem = none := by
      cases problem with
      | none => rfl
      | some problem =>
        rw [scan] at hclean
        dsimp only at hclean
        split at hclean <;> simp_all
    subst hproblem
    obtain ⟨body, hbody⟩ := text_lexeme_eq_cons c rest
    have happend := lexeme_append c rest
    rw [hlexeme] at hbody happend
    obtain rfl : text = c :: body := hbody
    obtain rfl : body ++ more = rest := (List.cons.inj happend).2
    have hscan := scan_of_lexeme hgap hlexeme offset
    simp only [Nat.add_assoc, ← Text.byteLength_append] at hscan
    rw [hscan] at hclean htokens
    obtain ⟨rfl, htail⟩ := List.cons.inj htokens
    exact ⟨lead, c, body, more, kind, hgap, hlexeme, rfl, rfl, hclean, htail⟩

def IsWord (text : String) : Prop :=
  ∃ c body, text.toList = c :: body ∧ beginsWord c = true ∧ body.all continuesWord = true

theorem isWord_of_standsIn {cs : List Char} {token : Token} (h : token.StandsIn cs)
    (hkind : token.kind = .word) : IsWord token.text := by
  obtain ⟨before, after, -, -, hend | ⟨c, rest, -, hlexeme, htext⟩⟩ := h
  · rw [hkind] at hend
    cases hend
  · rw [hkind] at hlexeme
    unfold lexeme at hlexeme htext
    split at hlexeme
    · rename_i hc
      rw [if_pos hc] at htext
      exact ⟨c, _, htext.symm, hc, List.all_takeWhile⟩
    · repeat' split at hlexeme
      all_goals cases hlexeme

/-- A text is cut into a row of tokens with nothing wrong, wherever it stands. -/
inductive Outlined : List Char → List Shape → Prop
  | nil {cs lead : List Char} (hgap : gap .blanks cs = .of lead [] true) : Outlined cs []
  | cons {cs lead rest text more : List Char} {c : Char} {kind : TokenKind} {row : List Shape}
      (hgap : gap .blanks cs = .of lead (c :: rest) true)
      (hlexeme : lexeme c rest = ⟨kind, text, more, none⟩) (hmore : Outlined more row) :
      Outlined cs (⟨kind, String.ofList text⟩ :: row)

namespace Outlined

variable {cs lead rest : List Char} {row : List Shape}

theorem scan_eq (h : Outlined cs row) (offset : Nat) :
    (scan offset cs).findings = [] ∧ (scan offset cs).tokens.map shape = row := by
  induction h generalizing offset with
  | nil hgap =>
    rw [scan_of_gap_nil hgap]
    exact ⟨rfl, rfl⟩
  | cons hgap hlexeme hmore ih =>
    rw [scan_of_lexeme hgap hlexeme]
    obtain ⟨hfindings, htokens⟩ := ih _
    exact ⟨hfindings, congrArg _ htokens⟩

theorem empty : Outlined [] [] := by
  have hgap : gap .blanks [] = .of [] [] true := by rw [gap, Gap.of, List.contains_nil]
  exact .nil hgap

theorem gap_append (h : Outlined rest row)
    (hgap : gap .blanks (lead ++ rest) = (gap .blanks rest).prepend lead) :
    Outlined (lead ++ rest) row := by
  cases h with
  | nil hrest => exact .nil (hgap.trans (by rw [hrest, Gap.prepend_of]))
  | cons hrest hlexeme hmore =>
    exact .cons (hgap.trans (by rw [hrest, Gap.prepend_of])) hlexeme hmore

theorem lexeme_append {c : Char} {body : List Char} {kind : TokenKind} (h : Outlined rest row)
    (hlexeme : lexeme c (body ++ rest) = ⟨kind, c :: body, rest, none⟩) :
    Outlined (c :: (body ++ rest)) (⟨kind, String.ofList (c :: body)⟩ :: row) := by
  have hproblem : (lexeme c (body ++ rest)).problem = none := by rw [hlexeme]
  exact .cons (gap_of_problem_eq_none hproblem (body ++ rest)) hlexeme h

theorem blank_cons {c : Char} (hc : Text.isBlank c = true) (h : Outlined rest row) :
    Outlined (c :: rest) row := by
  have hcons : Outlined ([c] ++ rest) row := h.gap_append (gap_blank_cons hc rest)
  exact hcons

theorem blanks_append (hlead : ∀ c ∈ lead, Text.isBlank c = true) (h : Outlined rest row) :
    Outlined (lead ++ rest) row := by
  induction lead with
  | nil => exact h
  | cons c lead ih =>
    obtain ⟨hc, hlead⟩ := List.forall_mem_cons.1 hlead
    exact (ih hlead).blank_cons hc

theorem punctuator_cons {c : Char} (hc : c ∈ punctuators) (h : Outlined rest row) :
    Outlined (c :: rest) (.mark c :: row) := by
  have hall : punctuators.all (fun d ↦ decide
      (beginsWord d = false ∧ d.isDigit = false ∧ d ≠ '"' ∧ d ≠ '\'')) = true := by
    decide
  obtain ⟨hword, hdigit, hquote, hquote'⟩ := of_decide_eq_true (List.all_eq_true.1 hall c hc)
  have hlexeme : lexeme c ([] ++ rest) = ⟨.punctuator c, [c], rest, none⟩ := by
    simp [lexeme, hword, hdigit, hquote, hquote', hc]
  exact h.lexeme_append hlexeme

theorem word_append {word : String} (hword : IsWord word) (hrest : Stops rest)
    (h : Outlined rest row) : Outlined (word.toList ++ rest) (.word word :: row) := by
  obtain ⟨c, body, htext, hc, hbody⟩ := hword
  have hcut := Text.takeWhile_dropWhile_append (List.all_eq_true.1 hbody)
    hrest.continuesWord_eq_false
  have hlexeme : lexeme c (body ++ rest) = ⟨.word, c :: body, rest, none⟩ := by
    rw [lexeme, if_pos hc, hcut.1, hcut.2]
  have hall := h.lexeme_append hlexeme
  rw [← htext, String.ofList_toList] at hall
  rw [htext]
  exact hall

theorem quoted_append {body : List Char} (hbody : Quoted.Plain body) (h : Outlined rest row) :
    Outlined ('"' :: (body ++ '"' :: rest)) (.quoted body :: row) := by
  have hscan := hbody.scan_append rest
  have hlexeme : lexeme '"' ((body ++ ['"']) ++ rest) =
      ⟨.string, '"' :: (body ++ ['"']), rest, none⟩ := by
    simp [lexeme, beginsWord, hscan]
  have hcons := h.lexeme_append hlexeme
  rwa [List.append_assoc] at hcons

end Outlined

/-- A piece of text that is a row of tokens wherever it stands, if what comes behind it does not go
on with its last token. -/
def Spells (piece : List Char) (row : List Shape) : Prop :=
  ∀ rest more, Stops rest → Outlined rest more → Outlined (piece ++ rest) (row ++ more)

theorem spells_lexeme {c : Char} {body more : List Char} {kind : TokenKind}
    (hlexeme : lexeme c (body ++ more) = ⟨kind, c :: body, more, none⟩) :
    Spells (c :: body) [⟨kind, String.ofList (c :: body)⟩] := by
  intro after row hafter houtlined
  have hcut : lexeme c (body ++ ([] ++ after)) = ⟨kind, c :: body, [] ++ after, none⟩ :=
    lexeme_append_cut hlexeme hafter
  exact houtlined.lexeme_append hcut

theorem Spells.lexeme_append {c : Char} {body lead piece rest : List Char} {kind : TokenKind}
    {row : List Shape} (h : Spells piece row) (hpiece : piece ≠ [])
    (hgap : gap .blanks (lead ++ (piece ++ rest)) = .of lead (piece ++ rest) true)
    (hlexeme : lexeme c (body ++ (lead ++ (piece ++ rest))) =
      ⟨kind, c :: body, lead ++ (piece ++ rest), none⟩) :
    Spells (c :: (body ++ (lead ++ piece))) (⟨kind, String.ofList (c :: body)⟩ :: row) := by
  intro after more hafter houtlined
  have hne : (gap .blanks (lead ++ (piece ++ rest))).rest ≠ [] := by
    rw [hgap]
    simp [hpiece]
  -- The gap ends where the piece begins, so it is the same gap before the other surroundings.
  have hlead := gap_text_append .blanks _ (piece ++ after) hne
  rw [hgap] at hlead
  have htail := (h after more hafter houtlined).gap_append hlead
  have hcut : lexeme c (body ++ (lead ++ piece ++ after)) =
      ⟨kind, c :: body, lead ++ piece ++ after, none⟩ :=
    lexeme_append_cut (by simpa using hlexeme) hafter
  rw [List.append_assoc] at hcut
  simpa using htail.lexeme_append hcut

/-- What stands in a text from the beginning of one token to the end of another one. -/
structure Phrase (offset : Nat) (cs : List Char) (tokens : List Token)
    (lead piece rest : List Char) : Prop where
  gap : gap .blanks cs = .of lead (piece ++ rest) true
  ne_nil : piece ≠ []
  start : ∀ token ∈ tokens.head?, token.span.start = offset + Text.byteLength lead
  stop : ∀ token ∈ tokens.getLast?, token.span.stop = offset + Text.byteLength (lead ++ piece)
  spells : Spells piece (tokens.map shape)

/-- The tokens at the beginning of a text in which nothing is wrong are a phrase of it. -/
theorem exists_phrase {cs : List Char} {offset : Nat} {token : Token} {used tail : List Token}
    (hclean : (scan offset cs).findings = [])
    (htokens : (scan offset cs).tokens = token :: (used ++ tail)) :
    ∃ lead piece rest, Phrase offset cs (token :: used) lead piece rest := by
  -- The tokens behind the first one are a phrase of what is behind it, and their gap stays.
  induction used generalizing cs offset token with
  | nil =>
    obtain ⟨lead, c, body, more, kind, hgap, hlexeme, hshape, hspan, -⟩ :=
      exists_lexeme_of_scan hclean htokens
    refine ⟨lead, c :: body, more, hgap, by simp, by simp [hspan], by simp [hspan], ?_⟩
    rw [List.map_singleton, hshape]
    exact spells_lexeme hlexeme
  | cons second used ih =>
    obtain ⟨lead, c, body, more, kind, hgap, hlexeme, hshape, hspan, hclean', htokens'⟩ :=
      exists_lexeme_of_scan hclean htokens
    obtain ⟨lead', piece, rest, hphrase⟩ := ih hclean' htokens'
    have hmore := gap_append .blanks more
    rw [hphrase.gap] at hmore
    obtain rfl : lead' ++ (piece ++ rest) = more := hmore
    refine ⟨lead, c :: (body ++ (lead' ++ piece)), rest, ?_, by simp, by simp [hspan], ?_, ?_⟩
    · simpa using hgap
    · intro last hlast
      have hstop := hphrase.stop last (by simpa using hlast)
      rw [hstop]
      simp
      omega
    · rw [List.map_cons, hshape]
      exact hphrase.spells.lexeme_append hphrase.ne_nil hphrase.gap hlexeme

theorem exists_scan_of_append {cs : List Char} {offset : Nat} {before tokens : List Token}
    (hclean : (scan offset cs).findings = [])
    (htokens : (scan offset cs).tokens = before ++ tokens) :
    ∃ lead rest, cs = lead ++ rest ∧ (scan (offset + Text.byteLength lead) rest).findings = [] ∧
      (scan (offset + Text.byteLength lead) rest).tokens = tokens := by
  induction before generalizing cs offset with
  | nil => exact ⟨[], cs, rfl, hclean, htokens⟩
  | cons token before ih =>
    obtain ⟨lead, c, body, more, kind, hgap, -, -, -, hclean', htokens'⟩ :=
      exists_lexeme_of_scan hclean htokens
    obtain ⟨lead', rest, rfl, hrest⟩ := ih hclean' htokens'
    have hcs := gap_append .blanks cs
    rw [hgap] at hcs
    rw [Nat.add_assoc, ← Text.byteLength_append] at hrest
    refine ⟨lead ++ c :: body ++ lead', rest, ?_, hrest⟩
    rw [← hcs]
    simp

/-- What stands in a text from one token to another one spells the tokens between. -/
theorem spells_between {cs : List Char} {before used after : List Token} {first last : Token}
    (hclean : (scan 0 cs).findings = []) (htokens : (scan 0 cs).tokens = before ++ (used ++ after))
    (hfirst : first ∈ used.head?) (hlast : last ∈ used.getLast?) :
    Spells (Text.between cs first.span.start last.span.stop) (used.map shape) := by
  obtain ⟨lead, rest, rfl, hclean', htokens'⟩ := exists_scan_of_append hclean htokens
  cases used with
  | nil => cases hfirst
  | cons token used =>
    obtain ⟨gap', piece, rest', hphrase⟩ := exists_phrase hclean' htokens'
    have hrest := gap_append .blanks rest
    rw [hphrase.gap] at hrest
    have hcs : lead ++ rest = (lead ++ gap') ++ piece ++ rest' := by
      rw [← hrest]
      simp
    have hstart := hphrase.start first hfirst
    have hstop := hphrase.stop last hlast
    rw [Nat.zero_add, ← Text.byteLength_append] at hstart hstop
    rw [hcs, hstart, hstop, ← List.append_assoc, Text.between_append]
    exact hphrase.spells

end Token

end VersionSweep
