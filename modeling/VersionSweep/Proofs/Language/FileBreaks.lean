import VersionSweep.Proofs.Language.MovedReading
import VersionSweep.Proofs.Language.Outline
import VersionSweep.Proofs.Language.SourceSpans
import VersionSweep.Proofs.Text.FileBreaks

/-!
# Source files with other line breaks

The carriage returns before the line feeds of a file are blanks wherever a line feed is one, and
they end a string literal as well.  So the tokens of the file are those of the text with bare line
feeds, each as far behind as there are line feeds before it.  Only a backslash in a literal would
take the carriage return with it instead of the line feed.
-/

namespace VersionSweep

open Text

namespace Quoted

theorem scan_fileBreaks (quote : Char) {cs : List Char} (h : FeedsUnescaped cs) :
    scan quote (fileBreaks cs) =
      ⟨(scan quote cs).body, fileBreaks (scan quote cs).rest, (scan quote cs).closed⟩ := by
  fun_induction scan quote cs with
  | case1 | case2 => rfl
  | case3 c cs ih =>
    have hc : c ≠ '\n' := by
      rintro rfl
      exact h ⟨[], cs, rfl⟩
    have hrest := ih (h.drop ['\\', c])
    rw [fileBreaks_cons (by decide), fileBreaks_cons hc, scan, hrest]
    rfl
  | case4 c cs hc hc' hbreak =>
    have hne := ne_backslash hc hc'
    obtain rfl | rfl := hbreak
    · rw [fileBreaks_feed, scan_cons_of_ne quote (by decide)]
      rfl
    · rw [fileBreaks_cons (by decide), scan_cons_of_ne quote hne]
      rfl
  | case5 cs hc hc' hbreak =>
    have hne := ne_backslash hc hc'
    rw [fileBreaks_cons (not_or.1 hbreak).1, scan_cons_of_ne _ hne, if_neg hbreak, if_pos rfl]
  | case6 c cs hc hc' hbreak hquote ih =>
    have hne := ne_backslash hc hc'
    have hrest := ih (h.drop [c])
    rw [fileBreaks_cons (not_or.1 hbreak).1, scan_cons_of_ne _ hne, if_neg hbreak, if_neg hquote,
      hrest]
    rfl

end Quoted

namespace Token

def Gap.fileBreaks (gap : Gap) : Gap :=
  ⟨Text.fileBreaks gap.text, Text.fileBreaks gap.rest, gap.closed, gap.broken⟩

theorem Gap.fileBreaks_push {c : Char} (hc : c ≠ '\n') (gap : Gap) :
    (gap.push c).fileBreaks = gap.fileBreaks.push c := by
  rw [Gap.fileBreaks, Gap.push, fileBreaks_cons hc]
  rfl

theorem Gap.fileBreaks_push_feed (gap : Gap) :
    (gap.push '\n').fileBreaks = (gap.fileBreaks.push '\n').push '\r' :=
  rfl

theorem gap_fileBreaks (mode : GapMode) (cs : List Char) :
    gap mode (fileBreaks cs) = (gap mode cs).fileBreaks := by
  fun_induction gap mode cs with
  | case1 | case6 | case9 =>
    rw [fileBreaks_nil, gap]
    rfl
  | case2 cs ih | case3 cs ih | case10 cs ih =>
    rw [Gap.fileBreaks_push (by decide), Gap.fileBreaks_push (by decide), ← ih,
      fileBreaks_cons (by decide), fileBreaks_cons (by decide), gap]
  | case4 c cs hline hblock hblank ih =>
    by_cases hc : c = '\n'
    · subst hc
      rw [Gap.fileBreaks_push_feed, ← ih, fileBreaks_feed, gap_blank_cons (by decide),
        gap_blank_cons hblank]
    · rw [Gap.fileBreaks_push hc, ← ih, fileBreaks_cons hc, gap_blank_cons hblank]
  | case5 c cs hline hblock hblank =>
    have hc : c ≠ '\n' := by
      rintro rfl
      exact hblank (by decide)
    rw [Gap.fileBreaks, fileBreaks_cons hc, gap, if_neg hblank]
    · rfl
    · intro more hslash hmore
      obtain ⟨rest, rfl⟩ := fileBreaks_eq_cons (by decide) hmore
      exact hline _ hslash rfl
    · intro more hslash hmore
      obtain ⟨rest, rfl⟩ := fileBreaks_eq_cons (by decide) hmore
      exact hblock _ hslash rfl
  | case7 cs ih =>
    rw [Gap.fileBreaks_push_feed, ← ih, fileBreaks_feed, gap, if_neg (by decide), gap, if_pos rfl]
  | case8 c cs hc ih =>
    rw [Gap.fileBreaks_push hc, ← ih, fileBreaks_cons hc, gap, if_neg hc]
  | case11 c cs hend ih =>
    by_cases hc : c = '\n'
    · subst hc
      rw [Gap.fileBreaks_push_feed, ← ih, fileBreaks_feed,
        gap_blockComment_cons fun _ h ↦ absurd h (by decide),
        gap_blockComment_cons fun _ h ↦ absurd h (by decide)]
    · rw [Gap.fileBreaks_push hc, ← ih, fileBreaks_cons hc, gap_blockComment_cons]
      intro more hstar hmore
      obtain ⟨rest, rfl⟩ := fileBreaks_eq_cons (by decide) hmore
      exact hend _ hstar rfl

theorem beginsFraction_fileBreaks (cs : List Char) :
    BeginsFraction (fileBreaks cs) ↔ BeginsFraction cs := by
  constructor
  · rintro ⟨c, more, hmore, hdigit⟩
    obtain ⟨rest, rfl⟩ := fileBreaks_eq_cons (by decide) hmore
    rw [fileBreaks_cons (by decide), List.cons.injEq] at hmore
    obtain ⟨rest, rfl⟩ := fileBreaks_eq_cons (by rintro rfl; cases hdigit) hmore.2
    exact ⟨c, rest, rfl, hdigit⟩
  · rintro ⟨c, rest, rfl, hdigit⟩
    have hc : c ≠ '\n' := by
      rintro rfl
      cases hdigit
    exact ⟨c, fileBreaks rest, by rw [fileBreaks_cons (by decide), fileBreaks_cons hc], hdigit⟩

theorem numberRest_fileBreaks (cs : List Char) :
    numberRest (fileBreaks cs) = ((numberRest cs).1, fileBreaks (numberRest cs).2) := by
  obtain ⟨htake, hdrop⟩ := takeWhile_fileBreaks (p := Char.isDigit) rfl rfl cs
  by_cases hfraction : BeginsFraction (cs.dropWhile Char.isDigit)
  · obtain ⟨c, rest, hrest, hdigit⟩ := hfraction
    have hc : c ≠ '\n' := by
      rintro rfl
      cases hdigit
    obtain ⟨htake', hdrop'⟩ := takeWhile_fileBreaks (p := Char.isDigit) rfl rfl rest
    rw [hrest, fileBreaks_cons (by decide), fileBreaks_cons hc] at hdrop
    rw [numberRest_of_eq hdigit hdrop, numberRest_of_eq hdigit hrest, htake, htake', hdrop']
  · rw [← beginsFraction_fileBreaks, ← hdrop] at hfraction
    rw [numberRest_of_not_beginsFraction hfraction, htake, hdrop]
    rw [hdrop, beginsFraction_fileBreaks] at hfraction
    rw [numberRest_of_not_beginsFraction hfraction]

/-- A lexeme is the same before line breaks of a file. -/
theorem lexeme_fileBreaks (c : Char) {rest : List Char} (h : FeedsUnescaped rest) :
    lexeme c (fileBreaks rest) =
      { lexeme c rest with rest := fileBreaks (lexeme c rest).rest } := by
  unfold lexeme
  split
  · obtain ⟨htake, hdrop⟩ := takeWhile_fileBreaks (p := continuesWord) rfl rfl rest
    rw [htake, hdrop]
  · split
    · rw [numberRest_fileBreaks]
    · split
      · rw [Quoted.scan_fileBreaks c h]
      · split <;> rfl

/-- There is no line feed in a lexeme. -/
theorem fileBreaks_text_lexeme {c : Char} {rest : List Char} (hc : c ≠ '\n')
    (h : FeedsUnescaped rest) :
    fileBreaks (lexeme c rest).text = (lexeme c rest).text := by
  have hsame := lexeme_append c (fileBreaks rest)
  rw [lexeme_fileBreaks c h, ← fileBreaks_cons hc, ← lexeme_append c rest, fileBreaks_append]
    at hsame
  exact (List.append_cancel_right hsame).symm

theorem not_isBlank_of_gap {mode : GapMode} {cs rest : List Char} {c : Char}
    (h : (gap mode cs).rest = c :: rest) : ¬isBlank c = true := by
  fun_induction gap mode cs <;> simp_all [Gap.push]

theorem Gap.findings_fileBreaks (gap : Gap) : gap.fileBreaks.findings = gap.findings := rfl

theorem scan_fileBreaks {f : Nat → Nat} {offset offset' : Nat} {cs : List Char}
    (h : FeedsUnescaped cs) (hf : Leads f offset offset' cs) :
    scan offset' (fileBreaks cs) = (scan offset cs).moved f := by
  -- Each token leaves a shorter text, which begins where the token ends.
  induction hn : cs.length using Nat.strongRecOn generalizing offset offset' cs with
  | ind n ih =>
    subst hn
    obtain ⟨lead, hlead⟩ : ∃ lead, gap .blanks cs = lead := ⟨_, rfl⟩
    have happend := gap_append .blanks cs
    have hgap := gap_fileBreaks .blanks cs
    rw [hlead] at happend hgap
    obtain rfl := happend
    have hlexeme := hf.drop
    have hstart : offset' + byteLength lead.fileBreaks.text = f (offset + byteLength lead.text) :=
      hlexeme.start.symm
    have hbreak : lead.fileBreaks.text.contains '\n' = lead.text.contains '\n' :=
      contains_fileBreaks lead.text
    cases hrest : lead.rest with
    | nil =>
      have hrest' : lead.fileBreaks.rest = [] := by rw [Gap.fileBreaks, hrest, fileBreaks_nil]
      rw [← hrest, scan_of_rest_nil hgap hrest', scan_of_rest_nil hlead hrest, hstart, hbreak,
        Gap.findings_fileBreaks, Gap.findings_moved]
      rfl
    | cons c rest =>
      have hc : c ≠ '\n' := by
        rintro rfl
        exact not_isBlank_of_gap (hlead ▸ hrest) (by decide)
      have hrest' : lead.fileBreaks.rest = c :: fileBreaks rest := by
        rw [Gap.fileBreaks, hrest, fileBreaks_cons hc]
      have hfeeds : FeedsUnescaped (c :: rest) := hrest ▸ h.drop lead.text
      have htext := fileBreaks_text_lexeme hc (hfeeds.drop [c])
      have hlt := length_lexeme_rest_lt c rest
      rw [hrest, ← lexeme_append c rest] at hlexeme
      have hmore := hlexeme.drop
      rw [htext, ← hlexeme.start] at hmore
      have htail := ih _ (by rw [hrest, List.length_append]; omega)
        (FeedsUnescaped.drop (lexeme c rest).text (lexeme_append c rest ▸ hfeeds)) hmore rfl
      rw [← hrest, scan_of_rest_cons hgap hrest', scan_of_rest_cons hlead hrest,
        lexeme_fileBreaks c (hfeeds.drop [c]), hstart, hbreak,
        Gap.findings_fileBreaks, Gap.findings_moved]
      dsimp only
      rw [htail, ← hmore.start]
      simp [Scan.moved, Token.moved, Span.moved, Finding.moved, Function.comp_def]

end Token

namespace SourceFile

theorem leads_fileOffset (cs : List Char) : Leads (fileOffset cs) 0 0 cs := by
  rintro before after rfl
  rw [Nat.zero_add, Nat.zero_add, fileOffset_append]

/-- A text with the line breaks of a file is read as the text itself: what was read and what was
found wrong is the same, at the places that the line feeds before it lead to. -/
theorem parse_fileBreaks (name text : String) (target : Int) (h : FeedsUnescaped text.toList) :
    (parse name (String.ofList (fileBreaks text.toList)) target).statements =
        (parse name text target).statements.map (Statement.moved (fileOffset text.toList)) ∧
      (parse name (String.ofList (fileBreaks text.toList)) target).diagnostics =
        (parse name text target).diagnostics.map (Diagnostic.moved (fileOffset text.toList)) := by
  have hscan := Token.scan_fileBreaks h (leads_fileOffset text.toList)
  have hzero : fileOffset text.toList 0 = 0 := (leads_fileOffset text.toList).start
  have hstream : Stream.ofScan (Token.scan 0 (fileBreaks text.toList)) =
      (Stream.ofScan (Token.scan 0 text.toList)).moved (fileOffset text.toList) := by
    rw [hscan, Stream.ofScan, Stream.ofScan, Stream.moved, hzero]
    rfl
  have hitems := Parsing.items_moved (f := fileOffset text.toList)
    (Stream.ofScan (Token.scan 0 text.toList))
  rw [← hstream] at hitems
  constructor
  · rw [parse, parse, String.toList_ofList]
    dsimp only
    rw [hitems, Parsing.Item.filterMap_statement?_map_moved]
  · refine diagnostics_moved rfl ?_ (sound_parse name text target).le_of_mem_findings
    rw [parse, parse, String.toList_ofList]
    dsimp only
    rw [hitems, Parsing.Item.filterMap_finding?_map_moved, hscan, Token.Scan.moved,
      ← List.map_append, Finding.sort_map_moved (fileOffset_le_iff _)]

theorem parse_fileBreaks_closing :
    FeedsUnescaped "a;\n)".toList ∧
      (parse "a.ts" (String.ofList (fileBreaks "a;\n)".toList)) 1).statements.map Statement.span =
        [⟨0, 2⟩] ∧
      (parse "a.ts" (String.ofList (fileBreaks "a;\n)".toList)) 1).diagnostics.map
        Diagnostic.location = [some ⟨"a.ts", 4, 1⟩] := by
  have hfeeds : FeedsUnescaped "a;\n)".toList := by decide +kernel
  obtain ⟨hstatements, hdiagnostics⟩ := parse_fileBreaks "a.ts" "a;\n)" 1 hfeeds
  rw [hstatements, hdiagnostics]
  exact ⟨hfeeds, by decide +kernel, by decide +kernel⟩

end SourceFile

end VersionSweep
