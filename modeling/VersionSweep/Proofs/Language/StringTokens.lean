import Mathlib.Data.List.Nodup
import VersionSweep.Proofs.Language.Coverage
import VersionSweep.Proofs.Language.Decoding

/-!
# String tokens and what they stand for

A string token for which no missing end is reported is a literal, and `literals_read_alike` says
that its decoding comes to its end with the token, neither earlier nor later.  Any text is what some
literal stands for: the one in which quotes, backslashes, line breaks and tabs are escaped is
scanned as one token.
-/

namespace VersionSweep.Token

variable {cs : List Char} {token : Token}

theorem StandsIn.exists_scan (h : token.StandsIn cs) (hkind : token.kind = .string) :
    ∃ quote rest, Quoted.IsQuote quote ∧
      token.text.toList = quote :: (Quoted.scan quote rest).body := by
  obtain ⟨-, -, -, -, hend | ⟨c, rest, -, hlexeme, htext⟩⟩ := h
  · rw [hkind] at hend
    cases hend
  · rw [hkind] at hlexeme
    unfold lexeme at hlexeme htext
    split at hlexeme
    case isTrue => cases hlexeme
    split at hlexeme
    case isTrue => cases hlexeme
    split at hlexeme
    case isTrue hword hdigit hquote =>
      rw [if_neg hword, if_neg hdigit, if_pos hquote] at htext
      exact ⟨c, rest, hquote, htext.symm⟩
    split at hlexeme
    case isTrue => cases hlexeme
    case isFalse => cases hlexeme

/-- No two tokens of a text have one place. -/
theorem nodup_spans_scan (cs : List Char) : ((scan 0 cs).tokens.map Token.span).Nodup := by
  obtain ⟨last, hcovers⟩ := exists_covers_scan cs
  have horderly := orderly_scan cs
  have hlt : ∀ span ∈ (scan 0 cs).tokens.map Token.span, span.start < span.stop := by
    intro span hspan
    obtain ⟨token, htoken, rfl⟩ := List.mem_map.1 hspan
    exact (horderly.tokens token htoken).lt (hcovers.kind token htoken)
  refine horderly.row.inOrder.imp_of_mem ?_
  rintro span _ hspan - hle rfl
  exact absurd (hlt span hspan) (Nat.not_lt.2 hle)

/-- A string is reported just if it is no literal with an end. -/
theorem exists_unterminated_iff (htoken : token ∈ (scan 0 cs).tokens)
    (hkind : token.kind = .string) :
    (∃ finding ∈ (scan 0 cs).findings,
        finding.problem.code = 1002 ∧ finding.span = token.span) ↔
      ¬Quoted.IsLiteral token.text.toList := by
  obtain ⟨last, hcovers⟩ := exists_covers_scan cs
  have hspans := hcovers.spans_unterminated
  constructor
  · rintro ⟨finding, hfinding, hcode, hspan⟩
    have hmem : token.span ∈
        ((scan 0 cs).findings.filter fun finding ↦ finding.problem.code = 1002).map
          Finding.span :=
      List.mem_map.2 ⟨finding, List.mem_filter.2 ⟨hfinding, decide_eq_true hcode⟩, hspan⟩
    rw [hspans] at hmem
    obtain ⟨other, hother, hsame⟩ := List.mem_map.1 hmem
    obtain ⟨hother, hopen⟩ := List.mem_filter.1 hother
    obtain rfl : other = token :=
      List.inj_on_of_nodup_map (nodup_spans_scan cs) hother htoken hsame
    exact (of_decide_eq_true hopen).2
  · intro hopen
    have hmem : token.span ∈
        ((scan 0 cs).tokens.filter fun token ↦
          token.kind = .string ∧ ¬Quoted.IsLiteral token.text.toList).map Token.span :=
      List.mem_map_of_mem (List.mem_filter.2 ⟨htoken, decide_eq_true ⟨hkind, hopen⟩⟩)
    rw [← hspans] at hmem
    obtain ⟨finding, hfinding, hspan⟩ := List.mem_map.1 hmem
    obtain ⟨hfinding, hcode⟩ := List.mem_filter.1 hfinding
    exact ⟨finding, hfinding, of_decide_eq_true hcode, hspan⟩

/-- A text that is one literal is one token. -/
theorem scan_literal {quote : Char} {body : List Char} (h : Quoted.IsLiteral (quote :: body)) :
    let stop := Text.byteLength (quote :: body)
    scan 0 (quote :: body) =
      ⟨[⟨.string, String.ofList (quote :: body), ⟨0, stop⟩, false⟩], ⟨stop, false⟩, []⟩ := by
  obtain ⟨hquote, hbody⟩ := h
  have hscan := hbody.scan_append hquote []
  rw [List.append_nil] at hscan
  have hlexeme : lexeme quote body = ⟨.string, quote :: body, [], none⟩ := by
    rcases hquote with rfl | rfl
    · simp [lexeme, hscan, beginsWord]
    · simp [lexeme, hscan, beginsWord]
  have hgap := gap_of_problem_eq_none (congrArg Lexeme.problem hlexeme) body
  rw [scan_of_lexeme hgap hlexeme, scan_of_gap_nil rfl]
  simp

/-- The search for the end of a literal and its decoding stop at the same quote: what a string token
stands for is settled just if no missing end is reported for it, and then by the whole of its text
only, each piece of which gives one character.  Any text can be written so. -/
theorem literals_read_alike :
    (∀ (text : String), ∀ token ∈ (scan 0 text.toList).tokens, token.kind = .string →
      let raw := token.text.toList
      raw = Text.between text.toList token.span.start token.span.stop ∧
      ((∃ finding ∈ (scan 0 text.toList).findings,
          finding.problem.code = 1002 ∧ finding.span = token.span) ↔ ¬Quoted.Settled raw) ∧
      (∀ front, front <+: raw → Quoted.Settled front → front = raw) ∧
      (Quoted.Settled raw → ∃ quote pieces, Quoted.IsQuote quote ∧
        (∀ piece ∈ pieces, piece.FitsIn quote) ∧ raw = Quoted.literal quote pieces ∧
        Quoted.unquote raw = pieces.map Quoted.Piece.value)) ∧
    (∀ (quote : Char) (value : String), Quoted.IsQuote quote →
      let written := String.ofList
        (Quoted.literal quote (value.toList.map (Quoted.Piece.writing quote)))
      let stop := written.utf8ByteSize
      scan 0 written.toList = ⟨[⟨.string, written, ⟨0, stop⟩, false⟩], ⟨stop, false⟩, []⟩ ∧
      String.ofList (Quoted.unquote written.toList) = value) := by
  constructor
  · intro text token htoken hkind raw
    have hstands := (orderly_scan text.toList).tokens token htoken
    obtain ⟨quote, rest, hquote, hraw⟩ := hstands.exists_scan hkind
    have hsettled : Quoted.Settled raw ↔ Quoted.IsLiteral raw := by
      have hbody := Quoted.settled_literal_iff hquote rest
      rwa [← hraw] at hbody
    refine ⟨hstands.text_eq, ?_, fun front hfront hstop ↦ ?_, fun hstop ↦ ?_⟩
    · rw [exists_unterminated_iff htoken hkind, hsettled]
    · rw [show raw = _ from hraw] at hfront ⊢
      exact Quoted.eq_of_settled hquote hfront hstop
    · have hliteral := hsettled.1 hstop
      rw [show raw = _ from hraw] at hliteral ⊢
      obtain ⟨pieces, hpieces, hbody⟩ := hliteral.2.exists_pieces
      rw [hbody]
      refine ⟨quote, pieces, hquote, hpieces, rfl, ?_⟩
      exact Quoted.unescape_pieces hquote.ne_backslash hpieces
  · intro quote value hquote written stop
    have hpieces : ∀ piece ∈ value.toList.map (Quoted.Piece.writing quote),
        piece.FitsIn quote :=
      List.forall_mem_map.2 fun c _ ↦ Quoted.Piece.fitsIn_writing quote c
    have hwritten : written.toList =
        Quoted.literal quote (value.toList.map (Quoted.Piece.writing quote)) :=
      String.toList_ofList
    constructor
    · have hscan := scan_literal ⟨hquote, Quoted.closes_pieces hpieces⟩
      have hstop : stop = Text.byteLength written.toList := Text.utf8ByteSize_eq_byteLength written
      rw [hstop, hwritten]
      exact hscan
    · have hvalue : Quoted.unquote written.toList = value.toList := by
        rw [hwritten]
        refine (Quoted.unescape_pieces hquote.ne_backslash hpieces).trans ?_
        rw [List.map_map]
        exact (List.map_congr_left fun c _ ↦ Quoted.Piece.value_writing hquote c).trans
          (List.map_id' _)
      rw [hvalue, String.ofList_toList]

/-- A literal with its own kind of quote and a backslash in it, both escaped, and a value that needs
every kind of escape. -/
theorem literals_read_alike_escaped_quote :
    let text := "'a\\'\\\\';"
    let token : Token := ⟨.string, "'a\\'\\\\'", ⟨0, 7⟩, false⟩
    let value := "a\\\"\r\n\t'"
    let written := "\"a\\\\\\\"\\r\\n\\t'\""
    (token ∈ (scan 0 text.toList).tokens ∧ token.kind = .string ∧
      Quoted.Settled token.text.toList ∧ ¬Quoted.Settled "'a\\'".toList) ∧
    Quoted.IsQuote '"' ∧
      (scan 0 written.toList).tokens = [⟨.string, written, ⟨0, 14⟩, false⟩] ∧
      String.ofList (Quoted.unquote written.toList) = value := by
  intro text token value written
  have htoken : token ∈ (scan 0 text.toList).tokens := by decide +kernel
  obtain ⟨-, hreported, hfront, -⟩ := literals_read_alike.1 text token htoken rfl
  have hsettled : Quoted.Settled token.text.toList := by
    refine Classical.not_not.1 (mt hreported.2 ?_)
    decide +kernel
  have hwritten : String.ofList
      (Quoted.literal '"' (value.toList.map (Quoted.Piece.writing '"'))) = written := by
    decide +kernel
  have hsize : written.utf8ByteSize = 14 := by decide +kernel
  have hvalue := literals_read_alike.2 '"' value (.inl rfl)
  dsimp only at hvalue
  rw [hwritten, hsize] at hvalue
  refine ⟨⟨htoken, rfl, hsettled, fun h ↦ ?_⟩, .inl rfl, ?_, ?_⟩
  · exact absurd (hfront _ (by decide) h) (by decide)
  · rw [hvalue.1]
  · exact hvalue.2

end VersionSweep.Token
