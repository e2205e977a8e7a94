import VersionSweep.Language.Token
import VersionSweep.Proofs.Text.Boundary

/-!
# Tokens stand in their text

A scan walks over a text without leaving anything out, so each token is a lexeme that is found in
the text at its span, and the tokens come one behind the other.  `orderly_scan` says this for the
whole text together with its end and its findings.
-/

namespace VersionSweep.Token

open Text

/-- A token that is found in a text at its span.  Unless it is the end of the text it is the lexeme
that begins there. -/
def StandsIn (cs : List Char) (token : Token) : Prop :=
  ∃ before after, cs = before ++ token.text.toList ++ after ∧
    token.span = ⟨byteLength before, byteLength before + byteLength token.text.toList⟩ ∧
    (token.kind = .endOfText ∨ ∃ c rest, token.text.toList ++ after = c :: rest ∧
      (lexeme c rest).kind = token.kind ∧ (lexeme c rest).text = token.text.toList)

theorem StandsIn.within {cs : List Char} {token : Token} (h : token.StandsIn cs) :
    token.span.Within cs := by
  obtain ⟨before, after, rfl, hspan, -⟩ := h
  rw [hspan]
  refine ⟨Nat.le_add_right _ _, ?_, ?_⟩
  · rw [List.append_assoc]
    exact boundary_append before _
  · have h := boundary_append (before ++ token.text.toList) after
    rwa [byteLength_append] at h

/-- A lexeme is not empty: it begins with the character that it was recognized by. -/
theorem text_lexeme_eq_cons (c : Char) (rest : List Char) :
    ∃ tail, (lexeme c rest).text = c :: tail := by
  unfold lexeme
  repeat' split
  all_goals exact ⟨_, rfl⟩

theorem isDigit_of_kind_lexeme {c : Char} {rest : List Char}
    (h : (lexeme c rest).kind = .number) : c.isDigit = true := by
  cases hdigit : c.isDigit with
  | true => rfl
  | false =>
    unfold lexeme at h
    rw [hdigit] at h
    repeat' split at h
    all_goals simp_all

theorem StandsIn.eq_digit_cons {cs : List Char} {token : Token} (h : token.StandsIn cs)
    (hkind : token.kind = .number) :
    ∃ c rest, token.text.toList = c :: rest ∧ c.isDigit = true := by
  obtain ⟨-, -, -, -, hend | ⟨c, rest, -, hlexeme, htext⟩⟩ := h
  · rw [hkind] at hend
    cases hend
  · obtain ⟨tail, htail⟩ := text_lexeme_eq_cons c rest
    rw [hkind] at hlexeme
    exact ⟨c, tail, htext ▸ htail, isDigit_of_kind_lexeme hlexeme⟩

/-- A token takes up some of its text. -/
theorem StandsIn.lt {cs : List Char} {token : Token} (h : token.StandsIn cs)
    (hkind : token.kind ≠ .endOfText) : token.span.start < token.span.stop := by
  obtain ⟨before, after, -, hspan, hend | ⟨c, rest, -, -, htext⟩⟩ := h
  · exact absurd hend hkind
  · obtain ⟨tail, htail⟩ := text_lexeme_eq_cons c rest
    have hpos := c.utf8Size_pos
    rw [hspan, ← htext, htail, byteLength_cons]
    dsimp only
    omega

structure Scan.Orderly (cs : List Char) (offset : Nat) (scan : Scan) : Prop where
  tokens : ∀ token ∈ scan.tokens, token.StandsIn cs
  row : Span.Row scan.finish.offset offset (scan.tokens.map Token.span)
  finish : scan.finish.token.StandsIn cs
  findings : ∀ finding ∈ scan.findings, finding.span.Within cs

theorem standsIn_finish (cs : List Char) (finish : TextEnd) (h : finish.offset = byteLength cs) :
    finish.token.StandsIn cs := by
  refine ⟨cs, [], by simp [TextEnd.token], ?_, .inl rfl⟩
  simp [TextEnd.token, h]

theorem standsIn_lexeme (before : List Char) (c : Char) (rest : List Char) (afterBreak : Bool) :
    StandsIn (before ++ c :: rest) ⟨(lexeme c rest).kind, String.ofList (lexeme c rest).text,
      ⟨byteLength before, byteLength before + byteLength (lexeme c rest).text⟩, afterBreak⟩ := by
  have hlexeme := lexeme_append c rest
  refine ⟨before, (lexeme c rest).rest, ?_, ?_, .inr ⟨c, rest, ?_, rfl, ?_⟩⟩
  · rw [String.toList_ofList, List.append_assoc, hlexeme]
  · rw [String.toList_ofList]
  · rw [String.toList_ofList, hlexeme]
  · rw [String.toList_ofList]

theorem within_unclosed {before cs : List Char} {closed : Bool} {finding : Finding}
    (h : finding ∈ if closed then [] else
      [(⟨.unclosedComment, ⟨byteLength before, byteLength before⟩⟩ : Finding)]) :
    finding.span.Within (before ++ cs) := by
  cases closed with
  | true => simp at h
  | false =>
    obtain rfl : finding = _ := by simpa using h
    exact ⟨Nat.le_refl _, boundary_append before cs, boundary_append before cs⟩

theorem orderly_scan_append (before cs : List Char) :
    (scan (byteLength before) cs).Orderly (before ++ cs) (byteLength before) := by
  -- Each token leaves a shorter text, and what is behind it becomes part of the text before.
  induction hn : cs.length using Nat.strongRecOn generalizing before cs with
  | ind n ih =>
    subst hn
    obtain ⟨lead, hlead⟩ : ∃ lead, lead = gap .blanks cs := ⟨_, rfl⟩
    have hcs : before ++ cs = (before ++ lead.text) ++ lead.rest := by
      rw [List.append_assoc, hlead, gap_append]
    have hstart : byteLength before ≤ byteLength (before ++ lead.text) := by
      rw [byteLength_append]
      exact Nat.le_add_right _ _
    rw [scan, ← hlead, hcs]
    dsimp only
    rw [← byteLength_append before lead.text]
    split
    · rename_i hrest
      rw [hrest, List.append_nil]
      refine ⟨by simp, hstart, standsIn_finish _ _ rfl, fun finding hfinding ↦ ?_⟩
      have hwithin : finding.span.Within (before ++ lead.text ++ []) := within_unclosed hfinding
      rwa [List.append_nil] at hwithin
    · rename_i c rest hrest
      have hshorter : (lexeme c rest).rest.length < cs.length := by
        have hlexeme := length_lexeme_rest_lt c rest
        have hgap := length_gap_rest_le .blanks cs
        rw [← hlead, hrest] at hgap
        exact Nat.lt_of_lt_of_le hlexeme hgap
      have htail := ih _ hshorter (before ++ lead.text ++ (lexeme c rest).text)
        (lexeme c rest).rest rfl
      rw [List.append_assoc _ (lexeme c rest).text, lexeme_append, byteLength_append] at htail
      have hstands := standsIn_lexeme (before ++ lead.text) c rest (lead.text.contains '\n')
      rw [hrest]
      refine ⟨?_, ?_, htail.finish, ?_⟩
      · intro token htoken
        rcases List.mem_cons.1 htoken with rfl | htoken
        · exact hstands
        · exact htail.tokens token htoken
      · exact ⟨hstart, Nat.le_add_right _ _, htail.row⟩
      · intro finding hfinding
        rw [List.mem_append, List.mem_append] at hfinding
        rcases hfinding with (hunclosed | hproblem) | hmore
        · exact within_unclosed hunclosed
        · obtain ⟨problem, -, rfl⟩ := List.mem_map.1 hproblem
          exact hstands.within
        · exact htail.findings finding hmore

/-- The tokens of a text stand in it one behind the other, and so does its end. -/
theorem orderly_scan (cs : List Char) : (scan 0 cs).Orderly cs 0 :=
  orderly_scan_append [] cs

end VersionSweep.Token
