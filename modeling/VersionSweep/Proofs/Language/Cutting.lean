import Mathlib.Tactic.ByContra
import VersionSweep.Proofs.Language.TokenRow

/-!
# Gaps and lexemes in other surroundings

Where a gap ends and where a lexeme ends is found out from little of what comes behind.  So a gap
with something behind it is a gap before anything, `gap_text_append`, and a lexeme stays the same
unless what is put directly behind it goes on with it, `lexeme_append_cut`.
-/

namespace VersionSweep

namespace Text

variable {p : Char → Bool} {body more rest x y : List Char}

theorem takeWhile_dropWhile_append (hbody : ∀ c ∈ body, p c = true)
    (hrest : ∀ c ∈ rest.head?, p c = false) :
    (body ++ rest).takeWhile p = body ∧ (body ++ rest).dropWhile p = rest := by
  rw [List.takeWhile_append_of_pos hbody, List.dropWhile_append_of_pos hbody]
  cases rest with
  | nil => simp
  | cons c rest => simp [hrest c rfl]

theorem mem_takeWhile_imp {cs : List Char} : ∀ c ∈ cs.takeWhile p, p c = true :=
  List.all_eq_true.1 List.all_takeWhile

theorem head?_dropWhile_imp {cs : List Char} : ∀ c ∈ (cs.dropWhile p).head?, p c = false := by
  intro c hc
  cases hdrop : cs.dropWhile p with
  | nil => simp [hdrop] at hc
  | cons d rest =>
    obtain rfl : d = c := by simpa [hdrop] using hc
    have hne : cs.dropWhile p ≠ [] := by simp [hdrop]
    have hhead := List.head_dropWhile_not p hne
    simpa [hdrop] using hhead

/-- What is taken from the beginning of a text stays the same if something else comes later, or
directly behind it something that is not taken. -/
theorem takeWhile_append_cut (htake : (body ++ (more ++ x)).takeWhile p = body)
    (hdrop : (body ++ (more ++ x)).dropWhile p = more ++ x) (hy : ∀ c ∈ y.head?, p c = false) :
    (body ++ (more ++ y)).takeWhile p = body ∧ (body ++ (more ++ y)).dropWhile p = more ++ y := by
  have hbody : ∀ c ∈ body, p c = true := htake ▸ mem_takeWhile_imp
  have hhead : ∀ c ∈ (more ++ x).head?, p c = false := hdrop ▸ head?_dropWhile_imp
  apply takeWhile_dropWhile_append hbody
  cases more with
  | nil => exact hy
  | cons c more => exact hhead

end Text

namespace Quoted

theorem scan_cons_of_ne (quote : Char) {c : Char} (hc : c ≠ '\\') (rest : List Char) :
    scan quote (c :: rest) =
      if c = '\n' ∨ c = '\r' then ⟨[], c :: rest, false⟩
      else if c = quote then ⟨[c], rest, true⟩
      else (scan quote rest).push [c] := by
  rw [scan]
  · exact fun h ↦ absurd h hc
  · exact fun _ _ h ↦ absurd h hc

theorem unescape_cons_of_ne (quote : Char) {c : Char} (hc : c ≠ '\\') (rest : List Char) :
    unescape quote (c :: rest) = if c = quote then [] else c :: unescape quote rest := by
  rw [unescape]
  · exact fun h ↦ absurd h hc
  · exact fun _ _ h ↦ absurd h hc

theorem ne_backslash {c : Char} {rest : List Char} (h : c = '\\' → rest ≠ [])
    (h' : ∀ d more, c = '\\' → rest ≠ d :: more) : c ≠ '\\' := by
  intro hc
  cases rest with
  | nil => exact h hc rfl
  | cons d more => exact h' d more hc rfl

/-- A literal with its closing quote is the same literal whatever comes behind it. -/
theorem scan_append_body (quote : Char) (cs rest : List Char)
    (h : (scan quote cs).closed = true) :
    scan quote ((scan quote cs).body ++ rest) = ⟨(scan quote cs).body, rest, true⟩ := by
  fun_induction scan quote cs with
  | case1 => cases h
  | case2 => cases h
  | case3 c cs ih => simp_all [Scan.push, scan]
  | case4 c cs hc hc' hbreak => cases h
  | case5 cs hc hc' hbreak =>
    have hne := ne_backslash hc hc'
    simp [scan_cons_of_ne quote hne, hbreak]
  | case6 c cs hc hc' hbreak hquote ih =>
    have hne := ne_backslash hc hc'
    have hbody := ih h
    simp [Scan.push, scan_cons_of_ne quote hne, hbreak, hquote, hbody]

/-- A text that can stand between double quotes as it is. -/
def Plain (cs : List Char) : Prop :=
  ∀ c ∈ cs, c ≠ '"' ∧ c ≠ '\\' ∧ c ≠ '\r' ∧ c ≠ '\n'

instance (cs : List Char) : Decidable (Plain cs) :=
  List.decidableBAll (fun c ↦ c ≠ '"' ∧ c ≠ '\\' ∧ c ≠ '\r' ∧ c ≠ '\n') cs

theorem Plain.scan_append {cs : List Char} (h : Plain cs) (rest : List Char) :
    scan '"' (cs ++ '"' :: rest) = ⟨cs ++ ['"'], rest, true⟩ := by
  induction cs with
  | nil => simp [scan_cons_of_ne]
  | cons c cs ih =>
    obtain ⟨⟨hquote, hescape, hreturn, hfeed⟩, hcs⟩ := List.forall_mem_cons.1 h
    have htail := ih hcs
    rw [List.cons_append, scan_cons_of_ne '"' hescape, htail]
    simp [hquote, hreturn, hfeed, Scan.push]

theorem Plain.unescape_append {cs : List Char} (h : Plain cs) (rest : List Char) :
    unescape '"' (cs ++ '"' :: rest) = cs := by
  induction cs with
  | nil => simp [unescape]
  | cons c cs ih =>
    obtain ⟨⟨hquote, hescape, -, -⟩, hcs⟩ := List.forall_mem_cons.1 h
    have htail := ih hcs
    rw [List.cons_append, unescape_cons_of_ne '"' hescape, htail, if_neg hquote]

theorem Plain.unquote_eq {cs : List Char} (h : Plain cs) :
    unquote ('"' :: (cs ++ ['"'])) = cs :=
  h.unescape_append []

end Quoted

namespace Token

def Gap.prepend (cs : List Char) (gap : Gap) : Gap :=
  cs.foldr push gap

/-- The gap with a text, in which a line feed is noted if it has one. -/
def Gap.of (text rest : List Char) (closed : Bool) : Gap :=
  ⟨text, rest, closed, text.contains '\n'⟩

theorem Gap.prepend_append (cs more : List Char) (gap : Gap) :
    gap.prepend (cs ++ more) = (gap.prepend more).prepend cs :=
  List.foldr_append

theorem Gap.push_of (c : Char) (text rest : List Char) (closed : Bool) :
    (of text rest closed).push c = of (c :: text) rest closed := by
  rw [of, of, push, List.contains_cons]

theorem Gap.prepend_of (cs text rest : List Char) (closed : Bool) :
    (of text rest closed).prepend cs = of (cs ++ text) rest closed := by
  induction cs with
  | nil => rfl
  | cons c cs ih => exact (congrArg (push c) ih).trans (push_of c _ _ _)

@[simp] theorem Gap.text_of (text rest : List Char) (closed : Bool) :
    (of text rest closed).text = text := rfl

@[simp] theorem Gap.rest_of (text rest : List Char) (closed : Bool) :
    (of text rest closed).rest = rest := rfl

@[simp] theorem Gap.closed_of (text rest : List Char) (closed : Bool) :
    (of text rest closed).closed = closed := rfl

@[simp] theorem Gap.rest_prepend (cs : List Char) (gap : Gap) :
    (gap.prepend cs).rest = gap.rest := by
  induction cs with
  | nil => rfl
  | cons c cs ih => exact ih

@[simp] theorem Gap.closed_prepend (cs : List Char) (gap : Gap) :
    (gap.prepend cs).closed = gap.closed := by
  induction cs with
  | nil => rfl
  | cons c cs ih => exact ih

@[simp] theorem Gap.text_prepend (cs : List Char) (gap : Gap) :
    (gap.prepend cs).text = cs ++ gap.text := by
  induction cs with
  | nil => rfl
  | cons c cs ih => exact congrArg (c :: ·) ih

theorem gap_eq_of (mode : GapMode) (cs : List Char) :
    gap mode cs = .of (gap mode cs).text (gap mode cs).rest (gap mode cs).closed := by
  rw [Gap.of, ← broken_gap]

theorem gap_blank_cons {c : Char} (hc : Text.isBlank c = true) (rest : List Char) :
    gap .blanks (c :: rest) = (gap .blanks rest).push c := by
  have hslash : c ≠ '/' := by
    rintro rfl
    exact absurd hc (by decide)
  rw [gap, if_pos hc]
  · exact fun _ h ↦ absurd h hslash
  · exact fun _ h ↦ absurd h hslash

theorem gap_blockComment_cons {c : Char} {rest : List Char}
    (h : ∀ more, c = '*' → rest ≠ '/' :: more) :
    gap .blockComment (c :: rest) = (gap .blockComment rest).push c := by
  rw [gap]
  exact h

theorem gap_blockComment_text_ne_nil {cs : List Char} (h : (gap .blockComment cs).rest ≠ []) :
    (gap .blockComment cs).text ≠ [] := by
  unfold gap at h ⊢
  split at h <;> simp_all [Gap.push]

/-- The text of a gap with something behind it is a gap with anything else behind it. -/
theorem gap_text_append (mode : GapMode) (cs rest : List Char) (h : (gap mode cs).rest ≠ []) :
    gap mode ((gap mode cs).text ++ rest) = (gap .blanks rest).prepend (gap mode cs).text := by
  fun_induction gap mode cs with
  | case4 c cs hline hblock hblank ih =>
    have hgap := ih h
    rw [Gap.push, List.cons_append, gap_blank_cons hblank, hgap]
    rfl
  | case11 c cs hend ih =>
    have hgap := ih h
    obtain ⟨d, text, htext⟩ := List.exists_cons_of_ne_nil (gap_blockComment_text_ne_nil h)
    have hcs := gap_append .blockComment cs
    rw [htext, List.cons_append] at hcs
    -- The star ends no comment here: the character behind it is the one that it was.
    have hend' : ∀ more, c = '*' → (gap .blockComment cs).text ++ rest ≠ '/' :: more := by
      rintro more hstar hslash
      rw [htext, List.cons_append, List.cons.injEq] at hslash
      exact hend _ hstar (hslash.1 ▸ hcs.symm)
    rw [Gap.push, List.cons_append, gap_blockComment_cons hend', hgap]
    rfl
  | _ => simp_all [Gap.push, Gap.prepend, gap]

def Stops (cs : List Char) : Prop :=
  ∃ c rest, cs = c :: rest ∧ continuesWord c = false ∧ c ≠ '.'

theorem continuesWord_of_isDigit {c : Char} (h : c.isDigit = true) : continuesWord c = true := by
  simp [continuesWord, Char.isAlphanum, h]

theorem Stops.continuesWord_eq_false {cs : List Char} (h : Stops cs) :
    ∀ c ∈ cs.head?, continuesWord c = false := by
  obtain ⟨c, rest, rfl, hc, -⟩ := h
  simpa using hc

theorem Stops.isDigit_eq_false {cs : List Char} (h : Stops cs) :
    ∀ c ∈ cs.head?, c.isDigit = false := by
  intro c hc
  have hword := h.continuesWord_eq_false c hc
  by_contra hdigit
  rw [continuesWord_of_isDigit (Bool.not_eq_false _ ▸ hdigit)] at hword
  cases hword

def BeginsFraction (cs : List Char) : Prop :=
  ∃ c rest, cs = '.' :: c :: rest ∧ c.isDigit = true

theorem Stops.not_beginsFraction {more x y : List Char} (hy : Stops y)
    (hx : ¬BeginsFraction (more ++ x)) : ¬BeginsFraction (more ++ y) := by
  rintro ⟨c, rest, hmore, hc⟩
  match more, hmore with
  | [], hmore =>
    obtain ⟨d, tail, rfl, -, hpoint⟩ := hy
    exact hpoint (List.cons.inj hmore).1
  | [d], hmore =>
    obtain ⟨e, tail, rfl, hword, -⟩ := hy
    obtain ⟨-, hrest⟩ := List.cons.inj hmore
    rw [(List.cons.inj hrest).1, continuesWord_of_isDigit hc] at hword
    cases hword
  | d :: e :: more, hmore =>
    obtain ⟨rfl, hrest⟩ := List.cons.inj hmore
    obtain ⟨rfl, -⟩ := List.cons.inj hrest
    exact hx ⟨e, more ++ x, rfl, hc⟩

theorem numberRest_of_not_beginsFraction {cs : List Char}
    (h : ¬BeginsFraction (cs.dropWhile Char.isDigit)) :
    numberRest cs = (cs.takeWhile Char.isDigit, cs.dropWhile Char.isDigit) := by
  unfold numberRest
  split
  · rename_i c rest hrest
    have hc : ¬c.isDigit = true := fun hc ↦ h ⟨c, rest, hrest, hc⟩
    rw [if_neg hc, hrest]
  · rfl

theorem numberRest_of_eq {cs rest : List Char} {c : Char} (hc : c.isDigit = true)
    (h : cs.dropWhile Char.isDigit = '.' :: c :: rest) :
    numberRest cs = (cs.takeWhile Char.isDigit ++ '.' :: c :: rest.takeWhile Char.isDigit,
      rest.dropWhile Char.isDigit) := by
  unfold numberRest
  rw [h]
  simp [hc]

/-- A number ends where it did if something else comes later, or directly behind it something that
does not go on with it. -/
theorem numberRest_append_cut {body more x y : List Char}
    (h : numberRest (body ++ (more ++ x)) = (body, more ++ x)) (hy : Stops y) :
    numberRest (body ++ (more ++ y)) = (body, more ++ y) := by
  by_cases hfraction : BeginsFraction ((body ++ (more ++ x)).dropWhile Char.isDigit)
  · -- The point with its digit is in the body, so only the digits behind it may end anew.
    obtain ⟨c, rest, hdrop, hc⟩ := hfraction
    rw [numberRest_of_eq hc hdrop, Prod.mk.injEq] at h
    obtain ⟨hbody, hmore⟩ := h
    generalize hwhole : (body ++ (more ++ x)).takeWhile Char.isDigit = whole at hbody
    have hdigits : ∀ c ∈ whole, c.isDigit = true := hwhole ▸ Text.mem_takeWhile_imp
    generalize hplaces : rest.takeWhile Char.isDigit = places at hbody
    have hrest : places ++ (more ++ x) = rest := by
      rw [← hplaces, ← hmore]
      exact List.takeWhile_append_dropWhile
    subst hrest
    obtain ⟨htake, hdrop⟩ := Text.takeWhile_append_cut hplaces hmore hy.isDigit_eq_false
    have hpoint : ∀ d ∈ ('.' :: c :: (places ++ (more ++ y))).head?, d.isDigit = false := by simp
    obtain ⟨htake', hdrop'⟩ := Text.takeWhile_dropWhile_append hdigits hpoint
    have hcs : body ++ (more ++ y) = whole ++ '.' :: c :: (places ++ (more ++ y)) := by
      simp [← hbody]
    rw [hcs, numberRest_of_eq hc hdrop', htake', htake, hdrop, hbody]
  · rw [numberRest_of_not_beginsFraction hfraction, Prod.mk.injEq] at h
    obtain ⟨htake, hdrop⟩ := Text.takeWhile_append_cut h.1 h.2 hy.isDigit_eq_false
    rw [h.2] at hfraction
    have hstop : ¬BeginsFraction ((body ++ (more ++ y)).dropWhile Char.isDigit) := by
      rw [hdrop]
      exact hy.not_beginsFraction hfraction
    rw [numberRest_of_not_beginsFraction hstop, htake, hdrop]

/-- A lexeme with nothing wrong ends where it did if something else comes later, or directly behind
it something that does not go on with it. -/
theorem lexeme_append_cut {c : Char} {body more x y : List Char} {kind : TokenKind}
    (h : lexeme c (body ++ (more ++ x)) = ⟨kind, c :: body, more ++ x, none⟩) (hy : Stops y) :
    lexeme c (body ++ (more ++ y)) = ⟨kind, c :: body, more ++ y, none⟩ := by
  unfold lexeme at h ⊢
  split at h
  · rename_i hword
    simp only [Lexeme.mk.injEq, List.cons.injEq, true_and, and_true] at h
    obtain ⟨rfl, htake, hdrop⟩ := h
    obtain ⟨htake', hdrop'⟩ := Text.takeWhile_append_cut htake hdrop hy.continuesWord_eq_false
    rw [if_pos hword, htake', hdrop']
  · rename_i hword
    rw [if_neg hword]
    split at h
    · rename_i hdigit
      simp only [Lexeme.mk.injEq, List.cons.injEq, true_and, and_true] at h
      obtain ⟨rfl, hnumber⟩ := h
      rw [if_pos hdigit, numberRest_append_cut (Prod.ext hnumber.1 hnumber.2) hy]
    · rename_i hdigit
      rw [if_neg hdigit]
      split at h
      · rename_i hquote
        simp only [Lexeme.mk.injEq, List.cons.injEq, true_and] at h
        obtain ⟨rfl, hbody, hrest, hclosed⟩ := h
        have hscan : (Quoted.scan c (body ++ (more ++ x))).closed = true := by
          by_contra hopen
          rw [if_neg hopen] at hclosed
          cases hclosed
        have hsame := Quoted.scan_append_body c _ (more ++ y) hscan
        rw [hbody] at hsame
        rw [if_pos hquote]
        simp [hsame]
      · rename_i hquote
        rw [if_neg hquote]
        split at h
        · rename_i hpunctuator
          simp only [Lexeme.mk.injEq, List.cons.injEq, true_and, and_true] at h
          obtain ⟨rfl, rfl, -⟩ := h
          rw [if_pos hpunctuator]
          rfl
        · cases h

/-- A character of the first code points that is printed and begins no comment. -/
def Visible (c : Char) : Prop :=
  0x21 ≤ c.toNat ∧ c.toNat ≤ 0x7E ∧ c ≠ '/'

theorem visible_of_beginsWord {c : Char} (h : beginsWord c = true) : Visible c := by
  rw [beginsWord, Bool.or_eq_true, Bool.or_eq_true, beq_iff_eq, beq_iff_eq] at h
  obtain (h | rfl) | rfl := h
  · have hne : c ≠ '/' := by
      rintro rfl
      exact absurd h (by decide)
    change (decide (65 ≤ c.toNat ∧ c.toNat ≤ 90) ||
      (decide (97 ≤ c.toNat) && decide (c.toNat ≤ 122))) = true at h
    simp only [Bool.or_eq_true, Bool.and_eq_true, decide_eq_true_eq] at h
    exact ⟨by omega, by omega, hne⟩
  · exact ⟨by decide, by decide, by decide⟩
  · exact ⟨by decide, by decide, by decide⟩

theorem visible_of_isDigit {c : Char} (h : c.isDigit = true) : Visible c := by
  have hne : c ≠ '/' := by
    rintro rfl
    exact absurd h (by decide)
  change (decide (48 ≤ c.toNat) && decide (c.toNat ≤ 57)) = true at h
  simp only [Bool.and_eq_true, decide_eq_true_eq] at h
  exact ⟨by omega, by omega, hne⟩

theorem visible_of_problem_eq_none {c : Char} {rest : List Char}
    (h : (lexeme c rest).problem = none) : Visible c := by
  unfold lexeme at h
  split at h
  · exact visible_of_beginsWord ‹_›
  · split at h
    · exact visible_of_isDigit ‹_›
    · split at h
      · rename_i hquote
        obtain rfl | rfl := hquote <;> exact ⟨by decide, by decide, by decide⟩
      · split at h
        · rename_i hpunctuator
          have hall : punctuators.all
              (fun d ↦ decide (0x21 ≤ d.toNat ∧ d.toNat ≤ 0x7E ∧ d ≠ '/')) = true := by decide
          have hc := List.all_eq_true.1 hall c hpunctuator
          rwa [decide_eq_true_eq] at hc
        · cases h

theorem Visible.not_isBlank {c : Char} (h : Visible c) : ¬Text.isBlank c = true := by
  obtain ⟨hlow, hhigh, -⟩ := h
  simp [Text.isBlank, Text.inRanges, Text.blankRanges]
  omega

/-- No gap is before a character that begins a lexeme. -/
theorem gap_of_problem_eq_none {c : Char} {rest : List Char}
    (h : (lexeme c rest).problem = none) (more : List Char) :
    gap .blanks (c :: more) = .of [] (c :: more) true := by
  have hvisible := visible_of_problem_eq_none h
  rw [gap, if_neg hvisible.not_isBlank]
  · rfl
  · exact fun _ h ↦ absurd h hvisible.2.2
  · exact fun _ h ↦ absurd h hvisible.2.2

end Token

end VersionSweep
