import VersionSweep.Proofs.Language.MovedReading
import VersionSweep.Proofs.Language.Outline
import VersionSweep.Proofs.Language.SourceSpans

/-!
# Texts put together at a line break

If nothing is wrong with a text and its last token is a semicolon, then nothing of its scan and of
its reading goes on behind a line break.  What comes there is scanned and read as if it stood alone,
only further behind, whatever it is.
-/

namespace VersionSweep

namespace Token

/-- A gap that reaches to the end of a text goes on behind a line feed as one without comment. -/
theorem gap_append_feed (mode : GapMode) (cs more : List Char) (hrest : (gap mode cs).rest = [])
    (hclosed : (gap mode cs).closed = true) :
    gap mode (cs ++ '\n' :: more) = (gap .blanks more).prepend (cs ++ ['\n']) := by
  fun_induction gap mode cs with
  | case1 => exact gap_blank_cons (by decide) more
  | case2 cs ih | case3 cs ih | case10 cs ih =>
    rw [List.cons_append, List.cons_append, gap, ih hrest hclosed]
    rfl
  | case4 c cs hline hblock hblank ih =>
    rw [List.cons_append, gap_blank_cons hblank, ih hrest hclosed]
    rfl
  | case5 => cases hrest
  | case6 =>
    rw [List.nil_append, gap, if_pos rfl]
    rfl
  | case7 cs ih =>
    rw [List.cons_append, gap, if_pos rfl, ih hrest hclosed]
    rfl
  | case8 c cs hc ih =>
    rw [List.cons_append, gap, if_neg hc, ih hrest hclosed]
    rfl
  | case9 => cases hclosed
  | case11 c cs hend ih =>
    rw [List.cons_append, gap_blockComment_cons, ih hrest hclosed]
    · rfl
    · -- A star at the end of the text is not followed by a slash: a line feed comes behind it.
      rintro rest hstar hslash
      cases cs with
      | nil => cases hslash
      | cons d cs => exact hend _ hstar (by rw [(List.cons.inj hslash).1])

def Scan.behindFeed (scan : Scan) : Scan :=
  match scan.tokens with
  | [] => { scan with finish := { scan.finish with afterBreak := true } }
  | token :: rest => { scan with tokens := { token with afterBreak := true } :: rest }

theorem Scan.findings_behindFeed (scan : Scan) : scan.behindFeed.findings = scan.findings := by
  unfold behindFeed
  split <;> rfl

def Scan.behind (tokens : List Token) (scan : Scan) : Scan :=
  { scan with tokens := tokens ++ scan.tokens }

theorem scan_gap_append_feed {cs : List Char} (hgap : gap .blanks cs = .of cs [] true)
    (offset : Nat) (more : List Char) :
    scan offset (cs ++ '\n' :: more) =
      (scan (offset + Text.byteLength cs + 1) more).behindFeed := by
  have hboth := gap_append_feed .blanks cs more (by rw [hgap]; rfl) (by rw [hgap]; rfl)
  obtain ⟨lead, hlead⟩ : ∃ lead, gap .blanks more = lead := ⟨_, rfl⟩
  rw [hlead] at hboth
  have hplace : offset + Text.byteLength (lead.prepend (cs ++ ['\n'])).text =
      offset + Text.byteLength cs + 1 + Text.byteLength lead.text := by
    have hfeed : ('\n').utf8Size = 1 := rfl
    simp only [Gap.text_prepend, Text.byteLength_append, Text.byteLength_cons, Text.byteLength_nil]
    omega
  have hbreak : (lead.prepend (cs ++ ['\n'])).text.contains '\n' = true := by
    simp
  have hbehind : (lead.prepend (cs ++ ['\n'])).rest = lead.rest := Gap.rest_prepend _ lead
  have hfindings (stop : Nat) :
      (lead.prepend (cs ++ ['\n'])).findings stop = lead.findings stop := by
    rw [Gap.findings, Gap.closed_prepend, Gap.findings]
  cases hrest : lead.rest with
  | nil =>
    rw [scan_of_rest_nil hboth (hbehind.trans hrest), scan_of_rest_nil hlead hrest, hplace, hbreak,
      hfindings]
    rfl
  | cons c rest =>
    rw [scan_of_rest_cons hboth (hbehind.trans hrest), scan_of_rest_cons hlead hrest, hplace,
      hbreak, hfindings]
    rfl

theorem gap_of_tokens_eq_nil {cs : List Char} {offset : Nat}
    (hclean : (scan offset cs).findings = []) (htokens : (scan offset cs).tokens = []) :
    gap .blanks cs = .of cs [] true := by
  obtain ⟨text, rest, closed, hgap⟩ : ∃ text rest closed, gap .blanks cs = .of text rest closed :=
    ⟨_, _, _, gap_eq_of .blanks cs⟩
  have happend := gap_append .blanks cs
  rw [hgap] at happend
  cases rest with
  | nil =>
    obtain rfl : text = cs := (List.append_nil text).symm.trans happend
    cases closed with
    | true => exact hgap
    | false =>
      rw [scan_of_rest_nil hgap rfl] at hclean
      cases hclean
  | cons c rest =>
    rw [scan_of_rest_cons hgap rfl] at htokens
    cases htokens

/-- A text in which nothing is wrong and another one behind a line feed are scanned each for itself.
-/
theorem scan_append_feed {cs : List Char} {offset : Nat} (hclean : (scan offset cs).findings = [])
    (more : List Char) :
    scan offset (cs ++ '\n' :: more) =
      ((scan (offset + Text.byteLength cs + 1) more).behindFeed).behind
        (scan offset cs).tokens := by
  induction htokens : (scan offset cs).tokens generalizing offset cs with
  | nil => exact scan_gap_append_feed (gap_of_tokens_eq_nil hclean htokens) offset more
  | cons token tokens ih =>
    obtain ⟨lead, c, body, rest, kind, hgap, hlexeme, -, -, hclean', htokens'⟩ :=
      exists_lexeme_of_scan hclean htokens
    have hcs := gap_append .blanks cs
    rw [hgap] at hcs
    simp only [Gap.text_of, Gap.rest_of] at hcs
    have hgap' : gap .blanks (cs ++ '\n' :: more) =
        .of lead (c :: (body ++ (rest ++ '\n' :: more))) true := by
      have hnone : (lexeme c (body ++ rest)).problem = none := by rw [hlexeme]
      have htext := gap_text_append .blanks cs (c :: (body ++ (rest ++ '\n' :: more)))
        (by simp [hgap])
      rw [hgap, gap_of_problem_eq_none hnone, Gap.prepend_of, List.append_nil] at htext
      simpa [← hcs] using htext
    have hlexeme' : lexeme c (body ++ (rest ++ '\n' :: more)) =
        ⟨kind, c :: body, rest ++ '\n' :: more, none⟩ :=
      lexeme_append_cut (x := []) (by simpa using hlexeme)
        ⟨'\n', more, rfl, by decide, by decide⟩
    have hplace : offset + Text.byteLength lead + Text.byteLength (c :: body) =
        offset + Text.byteLength (lead ++ c :: body) := by
      rw [Text.byteLength_append, Nat.add_assoc]
    have hlength : offset + Text.byteLength (lead ++ c :: body) + Text.byteLength rest =
        offset + Text.byteLength cs := by
      rw [← hcs, Nat.add_assoc, ← Text.byteLength_append, List.append_assoc, List.cons_append]
    rw [scan_of_lexeme hgap hlexeme, List.cons.injEq] at htokens
    rw [scan_of_lexeme hgap' hlexeme', htokens.1, hplace, ih hclean' htokens', hlength]
    rfl

end Token

namespace Stream

def followedBy (more : List Token) (finish : Token.TextEnd) (s : Stream) : Stream :=
  ⟨s.tokens ++ more, finish, s.lastStop⟩

def Closes (s : Stream) : Prop :=
  ∃ token ∈ s.tokens.getLast?, token.kind = .punctuator ';'

variable {s : Stream}

theorem Closes.ne_nil (h : s.Closes) : s.tokens ≠ [] := by
  obtain ⟨token, htoken, -⟩ := h
  intro hs
  rw [hs] at htoken
  cases htoken

theorem Closes.skip (h : s.Closes) : s.skip.Closes ∨ s.next.kind = .punctuator ';' ∧
    s.skip.tokens = [] := by
  obtain ⟨tokens, finish, lastStop⟩ := s
  obtain ⟨token, htoken, hkind⟩ := h
  cases tokens with
  | nil => cases htoken
  | cons first rest =>
    cases rest with
    | nil =>
      obtain rfl := Option.some.inj htoken
      exact .inr ⟨hkind, rfl⟩
    | cons second rest => exact .inl ⟨token, by rwa [List.getLast?_cons_cons] at htoken, hkind⟩

/-- Up to its last token a stream is read as it is, whatever comes behind it. -/
theorem change_followedBy (more : List Token) (finish : Token.TextEnd) :
    Change id (followedBy more finish) Closes where
  next {s} h := by
    obtain ⟨tokens, last, lastStop⟩ := s
    cases tokens with
    | nil => exact absurd rfl h.ne_nil
    | cons token rest => rfl
  lastStop _ := rfl
  skip {s} h := by
    obtain ⟨tokens, last, lastStop⟩ := s
    cases tokens with
    | nil => exact absurd rfl h.ne_nil
    | cons token rest => rfl
  stays h hs := h.skip.resolve_right fun hlast ↦ hs hlast.1
  leaves h := h.skip.imp_right And.right
  size_lt s t := by simp [size, followedBy]

end Stream

namespace Parsing

open Reader

variable {s : Stream}

/-- A round of reading that fails is left out: it goes on into whatever comes behind. -/
theorem step_followedBy (more : List Token) (finish : Token.TextEnd) (h : s.Closes)
    (hclean : (step s).1.finding? = none) :
    step (s.followedBy more finish) = ((step s).1, (step s).2.followedBy more finish) ∧
      ((step s).2.Closes ∨ (step s).2.tokens = []) := by
  have hread := (Stream.change_followedBy more finish).follows_statement h
  unfold step at hclean ⊢
  cases hs : statement s with
  | failed finding rest =>
    rw [hs] at hclean
    cases hclean
  | read found rest =>
    rw [hs] at hread
    obtain ⟨hsame, hrest⟩ := hread.eq_read
    rw [hsame]
    cases found with
    | none => exact ⟨rfl, hrest⟩
    | some value =>
      rw [Option.map_some, Statement.moved_id]
      exact ⟨rfl, hrest⟩

theorem exists_items_followedBy (more : List Token) (finish : Token.TextEnd)
    (h : s.Closes ∨ s.tokens = []) (hclean : ∀ item ∈ items s, item.finding? = none) :
    ∃ last, items (s.followedBy more finish) = items s ++ items ⟨more, finish, last⟩ := by
  fun_induction items s with
  | case1 s hs =>
    refine ⟨s.lastStop, ?_⟩
    rw [Stream.followedBy, hs]
    rfl
  | case2 s hs ih =>
    obtain ⟨hfirst, hmore⟩ := List.forall_mem_cons.1 hclean
    obtain ⟨hstep, hrest⟩ := step_followedBy more finish (h.resolve_right hs) hfirst
    obtain ⟨last, hitems⟩ := ih hrest hmore
    have hne : (s.followedBy more finish).tokens ≠ [] := by simp [Stream.followedBy, hs]
    refine ⟨last, ?_⟩
    rw [items_of_ne_nil hne, hstep, List.cons_append, ← hitems]

end Parsing

/-- Whether two streams differ at most in where the last token ended and in whether their next token
begins a line. -/
structure Stream.BeginsAs (s s' : Stream) : Prop where
  kind : s'.next.kind = s.next.kind
  text : s'.next.text = s.next.text
  span : s'.next.span = s.next.span
  skip : s'.skip = s.skip
  size : s'.size = s.size

/-- Whether two readings come to the same, or both fail where they began.  Then the streams that are
left differ as they did, and the round of reading drops the token in which they do. -/
def Reading.Agree {α : Type} (s s' : Stream) (reading reading' : Reading α) : Prop :=
  reading' = reading ∨ ∃ finding, reading = .failed finding s ∧ reading' = .failed finding s'

theorem Reading.Agree.bind {α β : Type} {s s' : Stream} {reading reading' : Reading α}
    (h : Agree s s' reading reading') (next : α → Stream → Reading β) :
    Agree s s' (reading.bind next) (reading'.bind next) := by
  obtain rfl | ⟨finding, rfl, rfl⟩ := h
  · exact .inl rfl
  · exact .inr ⟨finding, rfl, rfl⟩

namespace Stream.BeginsAs

open Reader Expression Parsing

variable {α : Type} {s s' : Stream}

theorem isPunctuator (h : s.BeginsAs s') (c : Char) :
    s'.next.isPunctuator c = s.next.isPunctuator c := by
  rw [Token.isPunctuator, Token.isPunctuator, h.kind]

theorem isWord (h : s.BeginsAs s') (word : String) : s'.next.isWord word = s.next.isWord word := by
  rw [Token.isWord, Token.isWord, h.kind, h.text]

theorem agree_failHere (h : s.BeginsAs s') (problem : Problem) :
    Reading.Agree s s' (failHere problem s : Reading α) (failHere problem s') :=
  .inr ⟨⟨problem, s.next.span⟩, rfl, by rw [failHere, h.span]⟩

theorem agree_optionalWord (h : s.BeginsAs s') {word : String} {next : Bool → Reader α}
    (hnext : Reading.Agree s s' (next false s) (next false s')) :
    Reading.Agree s s' ((optionalWord word >>= next) s) ((optionalWord word >>= next) s') := by
  rw [bind_apply, bind_apply, optionalWord, optionalWord, h.isWord, h.skip]
  split
  · exact .inl rfl
  · exact hnext

theorem agree_primary (h : s.BeginsAs s') (inner : Reader Expr) :
    Reading.Agree s s' (primary inner s) (primary inner s') := by
  have hatom : atom? s'.next = atom? s.next := by
    unfold atom?
    rw [h.kind, h.text, h.span]
  unfold primary
  rw [hatom, h.isPunctuator, h.skip]
  split
  · exact .inl rfl
  · split
    · refine .inl ?_
      unfold parenthesized
      rw [bind_apply, bind_apply, token, token, Reading.bind_read, Reading.bind_read, h.span,
        h.skip]
    · exact h.agree_failHere _

theorem agree_expression (h : s.BeginsAs s') :
    Reading.Agree s s' (expression s) (expression s') := by
  rw [expression, nestingLimit, Expression.read]
  exact (h.agree_primary _).bind _

theorem agree_declarationOrExpression (h : s.BeginsAs s') (start : Nat)
    (exported ambient : Bool) :
    Reading.Agree s s' (declarationOrExpression start exported ambient s)
      (declarationOrExpression start exported ambient s') := by
  have hkeyword : varKeyword? s'.next = varKeyword? s.next := by
    rw [varKeyword?, varKeyword?, h.kind, h.text]
  have hbegins : beginsExpression s'.next = beginsExpression s.next := by
    rw [beginsExpression, beginsExpression, h.kind, h.text]
  unfold declarationOrExpression
  rw [hkeyword, hbegins, h.skip]
  split
  · exact .inl rfl
  · split
    · exact h.agree_failHere _
    · exact h.agree_expression.bind _

theorem agree_otherStatement (h : s.BeginsAs s') (start : Nat) :
    Reading.Agree s s' (otherStatement start s) (otherStatement start s') := by
  unfold otherStatement
  refine h.agree_optionalWord ?_
  refine h.agree_optionalWord ?_
  exact h.agree_declarationOrExpression start false false

theorem agree_statement (h : s.BeginsAs s') :
    Reading.Agree s s' (statement s) (statement s') := by
  unfold statement
  rw [h.isPunctuator, h.isWord, h.span, h.skip]
  split
  · exact .inl rfl
  · split
    · exact .inl rfl
    · exact (h.agree_otherStatement _).bind _

/-- A round of reading does not see what was before the next token. -/
theorem step_eq (h : s.BeginsAs s') : step s' = step s := by
  obtain hsame | ⟨finding, hs, hs'⟩ := h.agree_statement
  · unfold step recover
    rw [hsame, h.size]
  · unfold step recover
    rw [hs, hs']
    dsimp only
    rw [if_pos rfl, if_pos rfl, h.skip]

theorem items_eq (h : s.BeginsAs s') (hs : s.tokens ≠ []) (hs' : s'.tokens ≠ []) :
    items s' = items s := by
  rw [items_of_ne_nil hs, items_of_ne_nil hs', h.step_eq]

end Stream.BeginsAs

namespace Parsing

theorem items_behindFeed (scan : Token.Scan) (last last' : Nat) :
    items ⟨scan.behindFeed.tokens, scan.behindFeed.finish, last'⟩ =
      items ⟨scan.tokens, scan.finish, last⟩ := by
  obtain ⟨tokens, finish, findings⟩ := scan
  cases tokens with
  | nil => rw [items_of_nil rfl, items_of_nil rfl]
  | cons token rest =>
    have hbegins : Stream.BeginsAs ⟨token :: rest, finish, last⟩
        ⟨{ token with afterBreak := true } :: rest, finish, last'⟩ :=
      ⟨rfl, rfl, rfl, rfl, rfl⟩
    exact hbegins.items_eq (List.cons_ne_nil _ _) (List.cons_ne_nil _ _)

variable {cs : List Char}

theorem scan_append_feed_moved (hclean : (Token.scan 0 cs).findings = []) (more : List Char) :
    Token.scan 0 (cs ++ '\n' :: more) =
      ((Token.scan 0 more).moved (· + (Text.byteLength cs + 1))).behindFeed.behind
        (Token.scan 0 cs).tokens := by
  rw [Token.scan_append_feed hclean, Nat.add_assoc, Token.scan_add]

/-- The rounds of reading of a text that ends closed are followed by those of the text behind it. -/
theorem items_append_feed (hclean : (Token.scan 0 cs).findings = [])
    (hitems : ∀ item ∈ items (Stream.ofScan (Token.scan 0 cs)), item.finding? = none)
    (hlast : ∀ token ∈ (Token.scan 0 cs).tokens.getLast?, token.kind = .punctuator ';')
    (more : List Char) :
    items (Stream.ofScan (Token.scan 0 (cs ++ '\n' :: more))) =
      items (Stream.ofScan (Token.scan 0 cs)) ++
        (items (Stream.ofScan (Token.scan 0 more))).map
          (Item.moved (· + (Text.byteLength cs + 1))) := by
  obtain ⟨behind, hbehind⟩ : ∃ behind,
    (Token.scan 0 more).moved (· + (Text.byteLength cs + 1)) = behind := ⟨_, rfl⟩
  have hcloses : (Stream.ofScan (Token.scan 0 cs)).Closes ∨
      (Stream.ofScan (Token.scan 0 cs)).tokens = [] := by
    cases htokens : (Token.scan 0 cs).tokens.getLast? with
    | none => exact .inr (List.getLast?_eq_none_iff.1 htokens)
    | some token => exact .inl ⟨token, htokens, hlast token htokens⟩
  have hstream : Stream.ofScan (Token.scan 0 (cs ++ '\n' :: more)) =
      (Stream.ofScan (Token.scan 0 cs)).followedBy behind.behindFeed.tokens
        behind.behindFeed.finish := by
    rw [scan_append_feed_moved hclean, hbehind]
    rfl
  obtain ⟨last, hread⟩ := exists_items_followedBy behind.behindFeed.tokens
    behind.behindFeed.finish hcloses hitems
  rw [hstream, hread, items_behindFeed behind (0 + (Text.byteLength cs + 1)), ← items_moved,
    ← hbehind]
  rfl

end Parsing

/-- Where nothing is wrong with a text whose last token is a semicolon, a text behind a line break
is read as it is read alone, at places that are further behind. -/
theorem SourceFile.parse_append_feed (name first second : String) (target : Int)
    (hclean : (parse name first target).diagnostics = [])
    (hlast : ∀ token ∈ (Token.scan 0 first.toList).tokens.getLast?,
      token.kind = .punctuator ';') :
    (parse name (first ++ "\n" ++ second) target).statements =
        (parse name first target).statements ++ (parse name second target).statements.map
          (Statement.moved (· + (first.utf8ByteSize + 1))) ∧
      (parse name (first ++ "\n" ++ second) target).diagnostics =
        (parse name second target).diagnostics.map
          (Diagnostic.moved (· + (first.utf8ByteSize + 1))) := by
  obtain ⟨hscan, hitems⟩ := clean_of_findings_eq_nil (List.map_eq_nil_iff.1 hclean)
  have hboth := Parsing.items_append_feed hscan hitems hlast second.toList
  have htext : (first ++ "\n" ++ second).toList = first.toList ++ '\n' :: second.toList := by
    simp
  rw [Text.utf8ByteSize_eq_byteLength]
  constructor
  · rw [parse, parse, parse, htext]
    dsimp only
    rw [hboth, List.filterMap_append, Parsing.Item.filterMap_statement?_map_moved]
  · refine diagnostics_moved rfl ?_ (sound_parse name second target).le_of_mem_findings
    have hnone : (Parsing.items (Stream.ofScan (Token.scan 0 first.toList))).filterMap
        Parsing.Item.finding? = [] :=
      List.filterMap_eq_nil_iff.2 hitems
    rw [parse, parse, htext]
    dsimp only
    rw [hboth, Parsing.scan_append_feed_moved hscan, List.filterMap_append, hnone,
      List.nil_append, Parsing.Item.filterMap_finding?_map_moved, Token.Scan.behind,
      Token.Scan.findings_behindFeed, Token.Scan.moved, ← List.map_append,
      Finding.sort_map_moved fun a b ↦ Nat.add_le_add_iff_right]

theorem SourceFile.parse_append_feed_closing :
    (parse "a.ts" "a;" 1).diagnostics = [] ∧
      (∀ token ∈ (Token.scan 0 "a;".toList).tokens.getLast?, token.kind = .punctuator ';') ∧
      (parse "a.ts" ("a;" ++ "\n" ++ "(b);\n)") 1).statements.map Statement.span =
        [⟨0, 2⟩, ⟨3, 7⟩] ∧
      (parse "a.ts" ("a;" ++ "\n" ++ "(b);\n)") 1).diagnostics.map Diagnostic.location =
        [some ⟨"a.ts", 8, 1⟩] := by
  have hclean : (parse "a.ts" "a;" 1).diagnostics = [] := by
    rw [← List.isEmpty_iff]
    decide +kernel
  have hlast : ∀ token ∈ (Token.scan 0 "a;".toList).tokens.getLast?,
      token.kind = .punctuator ';' := by
    decide +kernel
  obtain ⟨hstatements, hdiagnostics⟩ := parse_append_feed "a.ts" "a;" "(b);\n)" 1 hclean hlast
  rw [hstatements, hdiagnostics]
  exact ⟨hclean, hlast, by decide +kernel, by decide +kernel⟩

end VersionSweep
