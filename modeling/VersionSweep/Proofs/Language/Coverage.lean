import VersionSweep.Proofs.Language.GapContents
import VersionSweep.Proofs.Language.Literals
import VersionSweep.Proofs.Language.Outline
import VersionSweep.Proofs.Language.SpanNesting

/-!
# Tokens and gaps cover a text

A scan leaves nothing of a text out: between two tokens stands only what fills a gap, and behind the
last one there is at most one comment more.  What is reported about the text can be read off its
tokens and the gap at its end, each fault being reported once.
-/

namespace VersionSweep.Token

open Text

/-- Each token of a row with what stands in the text between it and the one before. -/
def withGaps (cs : List Char) : Nat → List Token → List (List Char × Token)
  | _, [] => []
  | start, token :: tokens =>
    (between cs start token.span.start, token) :: withGaps cs token.span.stop tokens

def faults (token : Token) : List Finding :=
  if token.kind = .unknown then [⟨.invalidCharacter, token.span⟩]
  else if token.kind = .string ∧ ¬Quoted.IsLiteral token.text.toList then
    [⟨.unterminatedString, token.span⟩]
  else []

def faultsAtEnd (last : List Char) (stop : Nat) : List Finding :=
  if LeftOpen last then [⟨.unclosedComment, ⟨stop, stop⟩⟩] else []

theorem kind_lexeme_ne_endOfText (c : Char) (rest : List Char) :
    (lexeme c rest).kind ≠ .endOfText := by
  unfold lexeme
  repeat' split
  all_goals exact TokenKind.noConfusion

theorem faults_lexeme (c : Char) (rest : List Char) (span : Span) (afterBreak : Bool) :
    faults ⟨(lexeme c rest).kind, String.ofList (lexeme c rest).text, span, afterBreak⟩ =
      (lexeme c rest).problem.toList.map fun problem ↦ ⟨problem, span⟩ := by
  unfold lexeme
  split
  case isTrue => rfl
  split
  case isTrue => rfl
  split
  case isTrue hquote =>
    have hclosed := Quoted.closed_scan_iff hquote rest
    simp only [faults, String.toList_ofList, ← hclosed]
    cases (Quoted.scan c rest).closed with
    | true => rfl
    | false => rfl
  split
  case isTrue => rfl
  case isFalse => rfl

theorem findings_gap (cs : List Char) (stop : Nat) :
    (gap .blanks cs).findings stop = faultsAtEnd cs stop := by
  rw [Gap.findings, faultsAtEnd]
  simp only [← closed_eq_false_iff]
  cases (gap .blanks cs).closed with
  | true => rfl
  | false => rfl

structure Scan.Covers (cs : List Char) (offset : Nat) (scan : Scan) (last : List Char) : Prop where
  withGaps_append : withGaps cs offset (scan.tokens ++ [scan.finish.token]) =
    withGaps cs offset scan.tokens ++ [(last, scan.finish.token)]
  filling : ∀ p ∈ withGaps cs offset scan.tokens, Filling p.1
  afterBreak : ∀ p ∈ withGaps cs offset scan.tokens, p.2.afterBreak = p.1.contains '\n'
  kind : ∀ token ∈ scan.tokens, token.kind ≠ .endOfText
  ending : Finished last ∨ LeftOpen last
  lastBreak : scan.finish.afterBreak = last.contains '\n'
  offset_finish : scan.finish.offset = byteLength cs
  findings : scan.findings = scan.tokens.flatMap faults ++ faultsAtEnd last (byteLength cs)

theorem between_append_append (before piece after : List Char) :
    between (before ++ (piece ++ after)) (byteLength before)
      (byteLength before + byteLength piece) = piece := by
  rw [← List.append_assoc, ← byteLength_append, between_append]

theorem StandsIn.text_eq {cs : List Char} {token : Token} (h : token.StandsIn cs) :
    token.text.toList = between cs token.span.start token.span.stop := by
  obtain ⟨before, after, htext, hspan, -⟩ := h
  rw [htext, hspan, ← byteLength_append, between_append]

namespace Scan.Covers

variable {filling last : List Char} {token : Token} {tail : Scan}

/-- Behind the offset there is nothing but a gap. -/
theorem of_gap {closed : Bool} (hending : Finished last ∨ LeftOpen last)
    (hgap : gap .blanks last = .of last [] closed) (before : List Char) :
    (scan (byteLength before) last).Covers (before ++ last) (byteLength before) last := by
  have hbetween := between_append_append before last []
  have hfindings := findings_gap last (byteLength before + byteLength last)
  rw [hgap] at hfindings
  rw [List.append_nil] at hbetween
  rw [scan_of_rest_nil hgap rfl, Gap.text_of, hfindings]
  refine ⟨?_, nofun, nofun, nofun, hending, rfl, (byteLength_append before last).symm, ?_⟩
  · exact congrArg (fun piece ↦ [(piece, _)]) hbetween
  · rw [byteLength_append]
    rfl

/-- One more token in front of a part that is covered. -/
theorem cons {cs : List Char} {offset : Nat} (h : tail.Covers cs token.span.stop last)
    (hbetween : between cs offset token.span.start = filling) (hfilling : Filling filling)
    (hbreak : token.afterBreak = filling.contains '\n') (hkind : token.kind ≠ .endOfText) :
    Covers cs offset ⟨token :: tail.tokens, tail.finish, faults token ++ tail.findings⟩ last := by
  subst hbetween
  refine ⟨?_, ?_, ?_, ?_, h.ending, h.lastBreak, h.offset_finish, ?_⟩
  · exact congrArg (_ :: ·) h.withGaps_append
  · exact List.forall_mem_cons.2 ⟨hfilling, h.filling⟩
  · exact List.forall_mem_cons.2 ⟨hbreak, h.afterBreak⟩
  · exact List.forall_mem_cons.2 ⟨hkind, h.kind⟩
  · rw [List.flatMap_cons, List.append_assoc, ← h.findings]

end Scan.Covers

/-- A scan of a text with a lexeme behind its first gap. -/
theorem scan_of_filling {cs filling rest : List Char} {c : Char}
    (hgap : gap .blanks cs = .of filling (c :: rest) true) (offset : Nat) :
    let start := offset + byteLength filling
    let found := lexeme c rest
    let token : Token := ⟨found.kind, String.ofList found.text,
      ⟨start, start + byteLength found.text⟩, filling.contains '\n'⟩
    let tail := scan token.span.stop found.rest
    scan offset cs = ⟨token :: tail.tokens, tail.finish, faults token ++ tail.findings⟩ := by
  dsimp only
  rw [scan_of_rest_cons hgap rfl, faults_lexeme]
  rfl

theorem exists_covers_scan_append (before cs : List Char) :
    ∃ last, (scan (byteLength before) cs).Covers (before ++ cs) (byteLength before) last := by
  -- Each token leaves a shorter text, and what is behind it becomes part of the text before.
  induction hn : cs.length using Nat.strongRecOn generalizing before cs with
  | ind n ih =>
    subst hn
    cases gapEnd cs with
    | finished hfinished hgap => exact ⟨cs, .of_gap (.inl hfinished) hgap before⟩
    | leftOpen hopen hgap => exact ⟨cs, .of_gap (.inr hopen) hgap before⟩
    | @before filling rest hfilling hrest hgap =>
      have hcs := gap_append .blanks cs
      rw [hgap] at hcs
      obtain rfl : filling ++ rest = cs := hcs
      obtain ⟨c, rest, rfl⟩ := List.exists_cons_of_ne_nil hrest
      have hshorter : (lexeme c rest).rest.length < (filling ++ c :: rest).length := by
        rw [List.length_append]
        exact Nat.lt_add_left _ (length_lexeme_rest_lt c rest)
      obtain ⟨last, htail⟩ := ih _ hshorter (before ++ filling ++ (lexeme c rest).text)
        (lexeme c rest).rest rfl
      have hall : before ++ filling ++ (lexeme c rest).text ++ (lexeme c rest).rest =
          before ++ (filling ++ c :: rest) := by
        rw [List.append_assoc, lexeme_append, List.append_assoc]
      rw [hall, byteLength_append, byteLength_append] at htail
      have hbetween := between_append_append before filling (c :: rest)
      rw [scan_of_filling hgap]
      exact ⟨last, htail.cons hbetween hfilling rfl (kind_lexeme_ne_endOfText c rest)⟩

theorem exists_covers_scan (cs : List Char) : ∃ last, (scan 0 cs).Covers cs 0 last :=
  exists_covers_scan_append [] cs

theorem Scan.Covers.afterBreak_iff {cs : List Char} {offset : Nat} {scan : Scan} {last : List Char}
    (h : scan.Covers cs offset last) {p : List Char × Token}
    (hp : p ∈ withGaps cs offset (scan.tokens ++ [scan.finish.token])) :
    p.2.afterBreak = true ↔ '\n' ∈ p.1 := by
  rw [← List.contains_iff_mem]
  rw [h.withGaps_append, List.mem_append, List.mem_singleton] at hp
  obtain hp | rfl := hp
  · rw [h.afterBreak p hp]
  · exact iff_of_eq (congrArg (· = true) h.lastBreak)

section Findings

variable {code : Nat}

theorem code_of_mem_faults {token : Token} {finding : Finding} (h : finding ∈ faults token) :
    finding.problem.code = 1127 ∨ finding.problem.code = 1002 := by
  unfold faults at h
  split at h
  · rw [List.mem_singleton.1 h]
    exact .inl rfl
  · split at h
    · rw [List.mem_singleton.1 h]
      exact .inr rfl
    · cases h

theorem filter_faults_eq_nil (h : code ≠ 1127) (h' : code ≠ 1002) (tokens : List Token) :
    (tokens.flatMap faults).filter (fun finding ↦ finding.problem.code = code) = [] := by
  refine List.filter_eq_nil_iff.2 fun finding hfinding ↦ ?_
  obtain ⟨token, -, hfaults⟩ := List.mem_flatMap.1 hfinding
  obtain hcode | hcode := code_of_mem_faults hfaults
  · simp [hcode, h.symm]
  · simp [hcode, h'.symm]

theorem filter_faultsAtEnd (last : List Char) (stop : Nat) :
    (faultsAtEnd last stop).filter (fun finding ↦ finding.problem.code = code) =
      if code = 1010 then faultsAtEnd last stop else [] := by
  unfold faultsAtEnd
  split
  · by_cases h : code = 1010
    · subst h
      rfl
    · simp [Problem.code, h, Ne.symm h]
  · simp

/-- If a fault is found in just the tokens with some property, it is reported where they are. -/
theorem spans_filter_flatMap_faults {p : Token → Bool}
    (h : ∀ token, ((faults token).filter fun finding ↦ finding.problem.code = code).map
      Finding.span = if p token then [token.span] else []) (tokens : List Token) :
    ((tokens.flatMap faults).filter fun finding ↦ finding.problem.code = code).map Finding.span =
      (tokens.filter p).map Token.span := by
  induction tokens with
  | nil => rfl
  | cons token tokens ih =>
    rw [List.flatMap_cons, List.filter_append, List.map_append, ih, h, List.filter_cons]
    split
    · rfl
    · rfl

theorem spans_unknown_faults (token : Token) :
    ((faults token).filter fun finding ↦ finding.problem.code = 1127).map Finding.span =
      if decide (token.kind = .unknown) then [token.span] else [] := by
  unfold faults
  by_cases hkind : token.kind = .unknown
  · rw [if_pos hkind, if_pos (decide_eq_true hkind)]
    rfl
  · rw [if_neg hkind, if_neg (mt of_decide_eq_true hkind)]
    split
    · rfl
    · rfl

theorem spans_unterminated_faults (token : Token) :
    ((faults token).filter fun finding ↦ finding.problem.code = 1002).map Finding.span =
      if decide (token.kind = .string ∧ ¬Quoted.IsLiteral token.text.toList) then [token.span]
      else [] := by
  unfold faults
  by_cases hopen : token.kind = .string ∧ ¬Quoted.IsLiteral token.text.toList
  · rw [if_neg (by rw [hopen.1]; exact TokenKind.noConfusion), if_pos hopen,
      if_pos (decide_eq_true hopen)]
    rfl
  · rw [if_neg hopen, if_neg (mt of_decide_eq_true hopen)]
    split
    · rfl
    · rfl

end Findings

theorem Scan.Covers.spans_unterminated {cs : List Char} {offset : Nat} {scan : Scan}
    {last : List Char} (h : scan.Covers cs offset last) :
    (scan.findings.filter fun finding ↦ finding.problem.code = 1002).map Finding.span =
      (scan.tokens.filter fun token ↦
        token.kind = .string ∧ ¬Quoted.IsLiteral token.text.toList).map Token.span := by
  rw [h.findings, List.filter_append, filter_faultsAtEnd, if_neg (by decide), List.append_nil,
    spans_filter_flatMap_faults spans_unterminated_faults]

/-- The tokens of a text take up some of it, one behind the other, and the end comes last.  Between
them are blanks and comments, and what is reported is that a comment at the end of the text has no
end, which tokens are unknown and which strings have no end. -/
theorem scan_covers_text (text : String) :
    let tokens := (scan 0 text.toList).tokens
    let finish := (scan 0 text.toList).finish.token
    let findings := (scan 0 text.toList).findings
    let stop := text.utf8ByteSize
    (∀ token ∈ tokens, token.kind ≠ .endOfText ∧ token.span.start < token.span.stop ∧
      token.text.toList = between text.toList token.span.start token.span.stop) ∧
    finish.kind = .endOfText ∧ finish.span = ⟨stop, stop⟩ ∧
    ((tokens ++ [finish]).Pairwise fun first second ↦ first.span.stop ≤ second.span.start) ∧
    (∀ p ∈ withGaps text.toList 0 (tokens ++ [finish]), p.2.afterBreak = true ↔ '\n' ∈ p.1) ∧
    (∀ p ∈ withGaps text.toList 0 tokens, Filling p.1) ∧
    (∃ last, withGaps text.toList 0 (tokens ++ [finish]) =
        withGaps text.toList 0 tokens ++ [(last, finish)] ∧
      (Finished last ∨ LeftOpen last) ∧
      findings.filter (fun finding ↦ finding.problem.code = 1010) =
        if LeftOpen last then [⟨.unclosedComment, ⟨stop, stop⟩⟩] else []) ∧
    (findings.filter fun finding ↦ finding.problem.code = 1127).map Finding.span =
      (tokens.filter fun token ↦ token.kind = .unknown).map Token.span ∧
    (findings.filter fun finding ↦ finding.problem.code = 1002).map Finding.span =
      (tokens.filter fun token ↦
        token.kind = .string ∧ ¬Quoted.IsLiteral token.text.toList).map Token.span := by
  intro tokens finish findings stop
  have horderly := orderly_scan text.toList
  obtain ⟨last, hcovers⟩ := exists_covers_scan text.toList
  have hstop : stop = byteLength text.toList := utf8ByteSize_eq_byteLength text
  have hoffset : (scan 0 text.toList).finish.offset = stop := hcovers.offset_finish.trans hstop.symm
  have hfindings : findings = tokens.flatMap faults ++ faultsAtEnd last stop := by
    rw [hstop]
    exact hcovers.findings
  refine ⟨fun token htoken ↦ ?_, rfl, ?_, ?_, fun p ↦ hcovers.afterBreak_iff, hcovers.filling,
    ⟨last, hcovers.withGaps_append, hcovers.ending, ?_⟩, ?_, ?_⟩
  · have hkind := hcovers.kind token htoken
    have hstands := horderly.tokens token htoken
    exact ⟨hkind, hstands.lt hkind, hstands.text_eq⟩
  · rw [← hoffset]
    rfl
  · have hfinish : Span.Row (scan 0 text.toList).finish.offset
        (scan 0 text.toList).finish.offset [finish.span] :=
      ⟨Nat.le_refl _, Nat.le_refl _, Nat.le_refl _⟩
    have hinOrder := (horderly.row.append hfinish).inOrder
    rw [← List.map_singleton, ← List.map_append] at hinOrder
    exact List.pairwise_map.1 hinOrder
  · rw [hfindings, List.filter_append, filter_faultsAtEnd,
      filter_faults_eq_nil (by decide) (by decide)]
    rfl
  · rw [hfindings, List.filter_append, filter_faultsAtEnd, if_neg (by decide), List.append_nil,
      spans_filter_flatMap_faults spans_unknown_faults]
  · exact hcovers.spans_unterminated

example : (scan 0 "a /*\n*/ \"b\n/* c".toList).findings =
    [⟨.unterminatedString, ⟨8, 10⟩⟩, ⟨.unclosedComment, ⟨15, 15⟩⟩] := by
  decide +kernel

end VersionSweep.Token
