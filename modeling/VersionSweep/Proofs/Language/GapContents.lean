import VersionSweep.Proofs.Language.Cutting

/-!
# What is in a gap

A gap is cut off by a walk that knows only whether it is in a comment.  What it passes over is a row
of blanks and of comments with an end.  Only at the end of a text may there be one more comment, and
the walk tells whether that is one in need of an end, `closed_eq_false_iff`.
-/

namespace VersionSweep.Token

/-- Blanks and comments with an end: a line comment ends at the first line feed behind its slashes,
and a block comment where a star and a slash come first behind its opening. -/
inductive Filling : List Char → Prop where
  | nil : Filling []
  | blank {c : Char} {rest : List Char} (hc : Text.isBlank c = true) (hrest : Filling rest) :
      Filling (c :: rest)
  | lineComment {body rest : List Char} (hbody : '\n' ∉ body) (hrest : Filling rest) :
      Filling ('/' :: '/' :: (body ++ '\n' :: rest))
  | blockComment {body rest : List Char} (hbody : ¬['*', '/'] <:+: body) (hrest : Filling rest) :
      Filling ('/' :: '*' :: (body ++ '*' :: '/' :: rest))

/-- A text that is all gap and in which nothing is left open: there may be a line comment at its
end. -/
def Finished (cs : List Char) : Prop :=
  ∃ filling ending, cs = filling ++ ending ∧ Filling filling ∧
    (ending = [] ∨ ∃ body, ending = '/' :: '/' :: body ∧ '\n' ∉ body)

/-- A text that is all gap and has a block comment without end as the last thing in it. -/
def LeftOpen (cs : List Char) : Prop :=
  ∃ filling body, cs = filling ++ '/' :: '*' :: body ∧ Filling filling ∧ ¬['*', '/'] <:+: body

section Comments

variable {body : List Char}

theorem gap_lineComment_append (h : '\n' ∉ body) (rest : List Char) :
    gap .lineComment (body ++ '\n' :: rest) = (gap .blanks rest).prepend (body ++ ['\n']) := by
  induction body with
  | nil =>
    rw [List.nil_append, gap, if_pos rfl]
    rfl
  | cons c body ih =>
    obtain ⟨hc, hbody⟩ := not_or.1 (mt List.mem_cons.2 h)
    rw [List.cons_append, gap, if_neg (Ne.symm hc), ih hbody]
    rfl

theorem gap_lineComment_of_not_mem (h : '\n' ∉ body) :
    gap .lineComment body = .of body [] true := by
  induction body with
  | nil =>
    rw [gap]
    rfl
  | cons c body ih =>
    obtain ⟨hc, hbody⟩ := not_or.1 (mt List.mem_cons.2 h)
    rw [gap, if_neg (Ne.symm hc), ih hbody, Gap.push_of]

theorem not_infix_of_cons {c : Char} (h : ¬['*', '/'] <:+: c :: body) :
    ¬['*', '/'] <:+: body ∧ ∀ more, c = '*' → body ≠ '/' :: more := by
  rw [List.infix_cons_iff, not_or] at h
  refine ⟨h.2, ?_⟩
  rintro more rfl rfl
  exact h.1 ⟨more, rfl⟩

theorem gap_blockComment_append (h : ¬['*', '/'] <:+: body) (rest : List Char) :
    gap .blockComment (body ++ '*' :: '/' :: rest) =
      (gap .blanks rest).prepend (body ++ ['*', '/']) := by
  induction body with
  | nil =>
    rw [List.nil_append, gap]
    rfl
  | cons c body ih =>
    obtain ⟨hbody, hc⟩ := not_infix_of_cons h
    rw [List.cons_append, gap_blockComment_cons, ih hbody]
    · rfl
    · -- The slash that would end the comment here would be one of the body.
      intro more hstar hslash
      cases body with
      | nil => cases hslash
      | cons d body => exact hc _ hstar (by rw [(List.cons.inj hslash).1])

theorem gap_blockComment_without_end (h : ¬['*', '/'] <:+: body) :
    gap .blockComment body = .of body [] false := by
  induction body with
  | nil =>
    rw [gap]
    rfl
  | cons c body ih =>
    obtain ⟨hbody, hc⟩ := not_infix_of_cons h
    rw [gap_blockComment_cons hc, ih hbody, Gap.push_of]

/-- A text that has the end of a block comment in it can be cut at the first one. -/
theorem exists_append_of_commentEnd {cs : List Char} (h : ['*', '/'] <:+: cs) :
    ∃ body rest, cs = body ++ '*' :: '/' :: rest ∧ ¬['*', '/'] <:+: body := by
  induction cs with
  | nil => simp at h
  | cons c cs ih =>
    by_cases hhere : ['*', '/'] <+: c :: cs
    · obtain ⟨rest, hrest⟩ := hhere
      exact ⟨[], rest, hrest.symm, by simp⟩
    · obtain ⟨body, rest, rfl, hbody⟩ := ih ((List.infix_cons_iff.1 h).resolve_left hhere)
      refine ⟨c :: body, rest, rfl, ?_⟩
      rw [List.infix_cons_iff, not_or]
      refine ⟨fun hprefix ↦ hhere ?_, hbody⟩
      exact hprefix.trans (List.prefix_append (c :: body) _)

end Comments

/-- What fills a gap is passed over whatever comes behind it. -/
theorem Filling.gap_append {filling : List Char} (h : Filling filling) (rest : List Char) :
    gap .blanks (filling ++ rest) = (gap .blanks rest).prepend filling := by
  induction h with
  | nil => rfl
  | blank hc _ ih =>
    rw [List.cons_append, gap_blank_cons hc, ih]
    rfl
  | lineComment hbody _ ih =>
    rw [List.cons_append, List.cons_append, List.append_assoc, List.cons_append, gap,
      gap_lineComment_append hbody, ih, ← Gap.prepend_append, List.append_assoc]
    rfl
  | blockComment hbody _ ih =>
    rw [List.cons_append, List.cons_append, List.append_assoc, List.cons_append, List.cons_append,
      gap, gap_blockComment_append hbody, ih, ← Gap.prepend_append, List.append_assoc]
    rfl

theorem Filling.append {filling more : List Char} (h : Filling filling) (hmore : Filling more) :
    Filling (filling ++ more) := by
  induction h with
  | nil => exact hmore
  | blank hc _ ih => exact .blank hc ih
  | lineComment hbody _ ih =>
    rw [List.cons_append, List.cons_append, List.append_assoc]
    exact .lineComment hbody ih
  | blockComment hbody _ ih =>
    rw [List.cons_append, List.cons_append, List.append_assoc]
    exact .blockComment hbody ih

/-- How the gap at the beginning of a text comes to its end: before something else, or with the text
and nothing left open, or with the text in a block comment. -/
inductive GapEnd (cs : List Char) : Prop where
  | before {filling rest : List Char} (hfilling : Filling filling) (hrest : rest ≠ [])
      (h : gap .blanks cs = .of filling rest true)
  | finished (hfinished : Finished cs) (h : gap .blanks cs = .of cs [] true)
  | leftOpen (hopen : LeftOpen cs) (h : gap .blanks cs = .of cs [] false)

/-- With something that fills a gap in front of it, the gap of a text ends as it did. -/
theorem GapEnd.prepend {filling cs : List Char} (hfilling : Filling filling) (h : GapEnd cs) :
    GapEnd (filling ++ cs) := by
  have hgap := hfilling.gap_append cs
  cases h with
  | before hrest hne hend =>
    rw [hend, Gap.prepend_of] at hgap
    exact .before (hfilling.append hrest) hne hgap
  | finished hfinished hend =>
    obtain ⟨front, ending, rfl, hfront, hending⟩ := hfinished
    rw [hend, Gap.prepend_of] at hgap
    have happend := List.append_assoc filling front ending
    exact .finished ⟨filling ++ front, ending, happend.symm, hfilling.append hfront, hending⟩ hgap
  | leftOpen hopen hend =>
    obtain ⟨front, body, rfl, hfront, hbody⟩ := hopen
    rw [hend, Gap.prepend_of] at hgap
    have happend := List.append_assoc filling front ('/' :: '*' :: body)
    exact .leftOpen ⟨filling ++ front, body, happend.symm, hfilling.append hfront, hbody⟩ hgap

theorem gapEnd (cs : List Char) : GapEnd cs := by
  -- A blank or a comment with its end is taken off, and the text behind it is shorter.
  induction hn : cs.length using Nat.strongRecOn generalizing cs with
  | ind n ih =>
    subst hn
    have hprepend (filling rest : List Char) (hfilling : Filling filling) (hne : filling ≠ [])
        (hcs : cs = filling ++ rest) : GapEnd cs := by
      have hpos := List.length_pos_iff.2 hne
      subst hcs
      exact (ih rest.length (by rw [List.length_append]; omega) rest rfl).prepend hfilling
    have hgap := gap.eq_def .blanks cs
    split at hgap
    case h_1 => exact .finished ⟨[], [], rfl, .nil, .inl rfl⟩ hgap
    case h_2 _ _ cs _ =>
      by_cases hfeed : '\n' ∈ cs
      · obtain ⟨body, rest, rfl, hbody⟩ := List.eq_append_cons_of_mem hfeed
        refine hprepend _ rest (.lineComment hbody .nil) (List.cons_ne_nil _ _) ?_
        rw [List.cons_append, List.cons_append, List.append_assoc]
        rfl
      · rw [gap_lineComment_of_not_mem hfeed] at hgap
        exact .finished ⟨[], '/' :: '/' :: cs, rfl, .nil, .inr ⟨cs, rfl, hfeed⟩⟩ hgap
    case h_3 _ _ cs _ =>
      by_cases hend : ['*', '/'] <:+: cs
      · obtain ⟨body, rest, rfl, hbody⟩ := exists_append_of_commentEnd hend
        refine hprepend _ rest (.blockComment hbody .nil) (List.cons_ne_nil _ _) ?_
        rw [List.cons_append, List.cons_append, List.append_assoc]
        rfl
      · rw [gap_blockComment_without_end hend] at hgap
        exact .leftOpen ⟨[], cs, rfl, .nil, hend⟩ hgap
    case h_4 _ _ c cs _ _ _ =>
      by_cases hblank : Text.isBlank c = true
      · exact hprepend [c] cs (.blank hblank .nil) (List.cons_ne_nil _ _) rfl
      · rw [if_neg hblank] at hgap
        exact .before .nil (List.cons_ne_nil c cs) hgap
    all_goals contradiction

theorem closed_eq_false_iff {cs : List Char} :
    (gap .blanks cs).closed = false ↔ LeftOpen cs := by
  constructor
  · intro h
    cases gapEnd cs with
    | before hfilling hrest hend =>
      rw [hend] at h
      cases h
    | finished hfinished hend =>
      rw [hend] at h
      cases h
    | leftOpen hopen hend => exact hopen
  · rintro ⟨filling, body, rfl, hfilling, hbody⟩
    rw [hfilling.gap_append, gap, gap_blockComment_without_end hbody, Gap.closed_prepend]
    rfl

instance : DecidablePred LeftOpen :=
  fun _ ↦ decidable_of_iff _ closed_eq_false_iff

end VersionSweep.Token
