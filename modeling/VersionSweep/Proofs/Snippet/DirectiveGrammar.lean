import VersionSweep.Proofs.Text.Trimming
import VersionSweep.Snippet.Directive

/-!
# The lines that are directives

What a directive may look like is said by its pieces: two slashes, at most one blank, an at sign, a
name, and then blanks alone or a colon and a value.  No character is both blank and part of a name,
so a line can be taken apart in one way at most, and the two patterns find just these pieces.
-/

namespace VersionSweep

namespace Text

/-- The word characters have no blank among them. -/
theorem isWord_eq_false_of_isBlank {c : Char} (h : isBlank c = true) : isWord c = false := by
  have hapart : ∀ blank ∈ blankRanges, ∀ word ∈ wordRanges,
      blank.2 < word.1 ∨ word.2 < blank.1 := by decide +kernel
  have hlow : ∀ blank ∈ blankRanges, blank.1 < 0x80 → blank.2 ≤ 0x20 := by decide
  have hascii : ∀ code < 0x21, isWord (Char.ofNat code) = false := by decide
  obtain ⟨blank, hblank, hrange⟩ := List.any_eq_true.1 h
  rw [Bool.and_eq_true, decide_eq_true_iff, decide_eq_true_iff] at hrange
  by_cases hc : c.toNat < 0x80
  · have hcode := hlow blank hblank (by omega)
    rw [← Char.ofNat_toNat c]
    exact hascii c.toNat (by omega)
  · rw [isWord, if_neg hc, inRanges, List.any_eq_false]
    intro word hword
    have hdisjoint := hapart blank hblank word hword
    rw [Bool.and_eq_true, decide_eq_true_iff, decide_eq_true_iff]
    omega

end Text

namespace Directive

open Text (isBlank isWord)

/-- Whether a line is two slashes, at most one blank, an at sign, a name and what comes behind it.
-/
structure Opens (line name tail : List Char) : Prop where
  named : name ≠ []
  word : ∀ c ∈ name, isWord c = true
  begins : ∃ gap : List Char, gap.length ≤ 1 ∧ (∀ c ∈ gap, isBlank c = true) ∧
    line = '/' :: '/' :: (gap ++ '@' :: (name ++ tail))

/-- Whether a value is what follows a colon, without one space at its beginning and all blanks at
its end. -/
structure ValueOf (rest value : List Char) : Prop where
  spaced : ∃ raw blanks, raw = value ++ blanks ∧ (∀ c ∈ blanks, isBlank c = true) ∧
    (rest = ' ' :: raw ∨ rest = raw ∧ rest.head? ≠ some ' ')
  trimmed : ∀ c ∈ value.getLast?, isBlank c = false

def IsFlag (line name : String) : Prop :=
  ∃ tail, Opens line.toList name.toList tail ∧ ∀ c ∈ tail, isBlank c = true

def IsValue (line name value : String) : Prop :=
  ∃ rest, Opens line.toList name.toList (':' :: rest) ∧ '\n' ∉ rest ∧ ValueOf rest value.toList

open Text (Piece)

variable {line name tail : List Char} {pieces : List Piece} {runs : List (List Char)}

/-- What the pieces before the tail take is an opening with a name. -/
theorem opens_of_matches (h : Piece.Matches (opening ++ pieces) line runs) :
    ∃ gap name tail rest, runs = gap :: name :: rest ∧ Opens line name tail ∧
      Piece.Matches pieces tail rest := by
  cases h with | char h =>
  cases h with | char h =>
  cases h with | @run _ _ _ _ gap _ _ _ hgap hblank h =>
  cases h with | char h =>
  cases h with | @run _ _ _ _ name tail rest hname _ hword h =>
  refine ⟨gap, name, tail, rest, rfl, ⟨?_, hword, gap, hgap 1 rfl, hblank, rfl⟩, h⟩
  exact List.ne_nil_of_length_pos hname

theorem Opens.exists_matches (h : Opens line name tail) {rest : List (List Char)}
    (hrest : Piece.Matches pieces tail rest) :
    ∃ gap, Piece.Matches (opening ++ pieces) line (gap :: name :: rest) := by
  obtain ⟨gap, hlength, hblank, rfl⟩ := h.begins
  have hmost : ∀ length ∈ some 1, gap.length ≤ length := by simpa using hlength
  have hname : 1 ≤ name.length := List.length_pos_iff.2 h.named
  exact ⟨gap, .char (.char (.run (Nat.zero_le _) hmost hblank
    (.char (.run hname (by simp) h.word hrest))))⟩

theorem takeWhile_isWord (h : ∀ c ∈ name, isWord c = true)
    (hstop : ∀ c ∈ tail.head?, isWord c = false) :
    (name ++ tail).takeWhile isWord = name ∧ (name ++ tail).dropWhile isWord = tail := by
  rw [List.takeWhile_append_of_pos h, List.dropWhile_append_of_pos h]
  cases tail with
  | nil => simp
  | cons c cs =>
    have hc : isWord c = false := hstop c rfl
    simp [hc]

/-- A line opens with one name only, if no word character follows it. -/
theorem Opens.unique {other more : List Char} (h : Opens line name tail)
    (h' : Opens line other more) (hstop : ∀ c ∈ tail.head?, isWord c = false)
    (hstop' : ∀ c ∈ more.head?, isWord c = false) : name = other ∧ tail = more := by
  have hat : isBlank '@' = false := by decide
  have hbehind {gap rest : List Char} (hblank : ∀ c ∈ gap, isBlank c = true) :
      (gap ++ '@' :: rest).dropWhile isBlank = '@' :: rest := by
    rw [List.dropWhile_append_of_pos hblank, List.dropWhile_cons_of_neg (by rw [hat]; decide)]
  obtain ⟨gap, -, hblank, rfl⟩ := h.begins
  obtain ⟨gap', -, hblank', hline⟩ := h'.begins
  have hrest : gap ++ '@' :: (name ++ tail) = gap' ++ '@' :: (other ++ more) :=
    (List.cons.inj (List.cons.inj hline).2).2
  have hsame : name ++ tail = other ++ more := by
    have hdropped := congrArg (List.dropWhile isBlank) hrest
    rw [hbehind hblank, hbehind hblank'] at hdropped
    exact (List.cons.inj hdropped).2
  obtain ⟨htake, hdrop⟩ := takeWhile_isWord h.word hstop
  obtain ⟨htake', hdrop'⟩ := takeWhile_isWord h'.word hstop'
  rw [hsame, htake'] at htake
  rw [hsame, hdrop'] at hdrop
  exact ⟨htake.symm, hdrop.symm⟩

/-- What a pattern behind an opening finds, if what it takes begins with no word character and is
taken in one way. -/
theorem exists_match?_iff {rest : List (List Char)}
    (hstop : ∀ tail rest, Piece.Matches pieces tail rest → ∀ c ∈ tail.head?, isWord c = false)
    (hunique : ∀ tail rest rest', Piece.Matches pieces tail rest →
      Piece.Matches pieces tail rest' → rest = rest') :
    (∃ gap, Piece.match? (opening ++ pieces) line = some (gap :: name :: rest)) ↔
      ∃ tail, Opens line name tail ∧ Piece.Matches pieces tail rest := by
  constructor
  · rintro ⟨gap, h⟩
    obtain ⟨_, _, tail, _, hruns, hopens, hmatches⟩ := opens_of_matches (Piece.matches_of_match? h)
    obtain ⟨-, rfl, rfl⟩ : _ ∧ _ ∧ _ := by simpa using hruns
    exact ⟨tail, hopens, hmatches⟩
  · rintro ⟨tail, hopens, hmatches⟩
    obtain ⟨_, hline⟩ := hopens.exists_matches hmatches
    obtain ⟨runs, hruns⟩ := Option.isSome_iff_exists.1 (Piece.isSome_match?_of_matches hline)
    obtain ⟨gap, other, more, found, rfl, hother, hfound⟩ :=
      opens_of_matches (Piece.matches_of_match? hruns)
    obtain ⟨rfl, rfl⟩ := hopens.unique hother (hstop _ _ hmatches) (hstop _ _ hfound)
    rw [hunique _ _ _ hmatches hfound]
    exact ⟨gap, hruns⟩

theorem matches_blanks_iff {rest : List (List Char)} :
    Piece.Matches [.run 0 none isBlank] tail rest ↔
      rest = [tail] ∧ ∀ c ∈ tail, isBlank c = true := by
  constructor
  · intro h
    cases h with | run _ _ hall h =>
    cases h
    rw [List.append_nil]
    exact ⟨rfl, hall⟩
  · rintro ⟨rfl, hall⟩
    have hmatches : Piece.Matches [.run 0 none isBlank] (tail ++ []) [tail] :=
      .run (Nat.zero_le _) (by simp) hall .nil
    rwa [List.append_nil] at hmatches

theorem matches_colon_iff {rest : List (List Char)} :
    Piece.Matches [.char ':', .run 0 none fun c ↦ c ≠ '\n'] tail rest ↔
      ∃ raw, tail = ':' :: raw ∧ rest = [raw] ∧ '\n' ∉ raw := by
  constructor
  · intro h
    cases h with | char h =>
    cases h with | @run _ _ _ _ raw _ _ _ _ hall h =>
    cases h
    rw [List.append_nil]
    exact ⟨raw, rfl, rfl, fun hmem ↦ absurd (hall _ hmem) (by decide)⟩
  · rintro ⟨raw, rfl, rfl, hfeed⟩
    have hall : ∀ c ∈ raw, decide (c ≠ '\n') = true := fun c hc ↦
      decide_eq_true fun heq ↦ hfeed (heq ▸ hc)
    have hmatches : Piece.Matches [.run 0 none fun c ↦ c ≠ '\n'] (raw ++ []) [raw] :=
      .run (Nat.zero_le _) (by simp) hall .nil
    rw [List.append_nil] at hmatches
    exact .char hmatches

theorem exists_match?_flagPattern_iff :
    (∃ gap tail, Piece.match? flagPattern line = some [gap, name, tail]) ↔
      ∃ tail, Opens line name tail ∧ ∀ c ∈ tail, isBlank c = true := by
  have hfound (tail : List Char) : (∃ gap, Piece.match? flagPattern line = some [gap, name, tail]) ↔
      ∃ more, Opens line name more ∧ Piece.Matches [.run 0 none isBlank] more [tail] := by
    refine exists_match?_iff (fun tail rest h c hc ↦ ?_) fun tail rest rest' h h' ↦ ?_
    · exact Text.isWord_eq_false_of_isBlank
        ((matches_blanks_iff.1 h).2 c (List.mem_of_mem_head? hc))
    · rw [(matches_blanks_iff.1 h).1, (matches_blanks_iff.1 h').1]
  constructor
  · rintro ⟨gap, tail, h⟩
    obtain ⟨more, hopens, hmatches⟩ := (hfound tail).1 ⟨gap, h⟩
    exact ⟨more, hopens, (matches_blanks_iff.1 hmatches).2⟩
  · rintro ⟨tail, hopens, hblank⟩
    obtain ⟨gap, h⟩ := (hfound tail).2 ⟨tail, hopens, matches_blanks_iff.2 ⟨rfl, hblank⟩⟩
    exact ⟨gap, tail, h⟩

theorem isWord_eq_false_of_mem_head?_colon {rest : List Char} :
    ∀ c ∈ (':' :: rest).head?, isWord c = false := by
  rintro c ⟨⟩
  decide

theorem exists_match?_valuePattern_iff {rest : List Char} :
    (∃ gap, Piece.match? valuePattern line = some [gap, name, rest]) ↔
      Opens line name (':' :: rest) ∧ '\n' ∉ rest := by
  refine (exists_match?_iff (fun tail rest h ↦ ?_) fun tail rest rest' h h' ↦ ?_).trans ?_
  · obtain ⟨raw, rfl, -⟩ := matches_colon_iff.1 h
    exact isWord_eq_false_of_mem_head?_colon
  · obtain ⟨raw, rfl, rfl, -⟩ := matches_colon_iff.1 h
    obtain ⟨raw', hraw, rfl, -⟩ := matches_colon_iff.1 h'
    rw [(List.cons.inj hraw).2]
  · simp only [matches_colon_iff]
    constructor
    · rintro ⟨_, hopens, raw, rfl, hraw, hfeed⟩
      obtain rfl := (List.cons.inj hraw).1
      exact ⟨hopens, hfeed⟩
    · rintro ⟨hopens, hfeed⟩
      exact ⟨_, hopens, rest, rfl, rfl, hfeed⟩

/-- The value of what follows a colon is what is left of it without a space and blanks. -/
theorem valueOf_eq_iff {rest value : List Char} : valueOf rest = value ↔ ValueOf rest value := by
  unfold valueOf
  dsimp only
  rw [Text.trimEnd_eq_iff]
  split
  · rename_i raw
    constructor
    · rintro ⟨⟨blanks, hraw, hblanks⟩, hlast⟩
      exact ⟨⟨raw, blanks, hraw, hblanks, .inl rfl⟩, hlast⟩
    · rintro ⟨⟨_, blanks, rfl, hblanks, hrest | ⟨-, hhead⟩⟩, hlast⟩
      · exact ⟨⟨blanks, (List.cons.inj hrest).2, hblanks⟩, hlast⟩
      · exact absurd rfl hhead
  · rename_i hspace
    constructor
    · rintro ⟨⟨blanks, hrest, hblanks⟩, hlast⟩
      refine ⟨⟨rest, blanks, hrest, hblanks, .inr ⟨rfl, fun hhead ↦ ?_⟩⟩, hlast⟩
      obtain ⟨raw, hraw⟩ := List.head?_eq_some_iff.1 hhead
      exact hspace raw hraw
    · rintro ⟨⟨raw, blanks, rfl, hblanks, hrest | ⟨hrest, -⟩⟩, hlast⟩
      · exact (hspace _ hrest).elim
      · exact ⟨⟨blanks, hrest, hblanks⟩, hlast⟩

theorem parse_eq_flag_iff {line name : String} :
    parse line = some (.flag name) ↔ IsFlag line name := by
  have hform : (∃ gap tail, Piece.match? flagPattern line.toList = some [gap, name.toList, tail]) ↔
      IsFlag line name := exists_match?_flagPattern_iff
  rw [← hform]
  constructor
  · intro h
    unfold parse at h
    split at h
    · rename_i gap found tail hfound
      cases h
      exact ⟨gap, tail, by rwa [String.toList_ofList]⟩
    · split at h <;> cases h
  · rintro ⟨gap, tail, h⟩
    rw [parse, h]
    dsimp only
    rw [String.ofList_toList]

/-- Behind one name there are not both blanks and a colon, so it does not matter to a value that the
pattern of a bare name is tried first. -/
theorem not_match?_flagPattern (h : Opens line name (':' :: tail)) {gap other blanks : List Char} :
    Piece.match? flagPattern line ≠ some [gap, other, blanks] := by
  intro hfound
  obtain ⟨more, hopens, hblank⟩ := exists_match?_flagPattern_iff.1 ⟨gap, blanks, hfound⟩
  obtain ⟨-, rfl⟩ := h.unique hopens isWord_eq_false_of_mem_head?_colon fun c hc ↦
    Text.isWord_eq_false_of_isBlank (hblank c (List.mem_of_mem_head? hc))
  exact absurd (hblank ':' (List.mem_cons_self ..)) (by decide)

theorem parse_eq_value_iff {line name value : String} :
    parse line = some (.value name value) ↔ IsValue line name value := by
  constructor
  · intro h
    unfold parse at h
    split at h
    · cases h
    · split at h
      · rename_i gap found rest hfound
        cases h
        obtain ⟨hopens, hfeed⟩ := exists_match?_valuePattern_iff.1 ⟨gap, hfound⟩
        refine ⟨rest, by rwa [String.toList_ofList], hfeed, ?_⟩
        rw [String.toList_ofList]
        exact valueOf_eq_iff.1 rfl
      · cases h
  · rintro ⟨rest, hopens, hfeed, hvalue⟩
    obtain ⟨gap, hfound⟩ := exists_match?_valuePattern_iff.2 ⟨hopens, hfeed⟩
    unfold parse
    split
    · rename_i hflag
      exact absurd hflag (not_match?_flagPattern hopens)
    · rw [hfound]
      dsimp only
      rw [valueOf_eq_iff.2 hvalue, String.ofList_toList, String.ofList_toList]

/-- A name with a value that is one line and does not end in a blank, written in the plain form. -/
theorem isValue_plain {name value : String} (hname : name ≠ "")
    (hword : ∀ c ∈ name.toList, isWord c = true) (hfeed : '\n' ∉ value.toList)
    (hend : ∀ c ∈ value.toList.getLast?, isBlank c = false) :
    IsValue ("// @" ++ name ++ ": " ++ value) name value := by
  refine ⟨' ' :: value.toList, ⟨by simpa using hname, hword, [' '], le_rfl, ?_, ?_⟩, ?_, ?_⟩
  · exact List.forall_mem_singleton.2 (by decide)
  · simp
  · simpa using hfeed
  · exact ⟨⟨value.toList, [], by simp, by simp, .inl rfl⟩, hend⟩

/-- What is read of a line, written in the plain form, is read again. -/
theorem IsValue.plain {line name value : String} (h : IsValue line name value) :
    IsValue ("// @" ++ name ++ ": " ++ value) name value := by
  obtain ⟨rest, hopens, hfeed, hvalue⟩ := h
  have hfeed' : '\n' ∉ value.toList := by
    refine fun hmem ↦ hfeed ?_
    obtain ⟨raw, blanks, rfl, -, rfl | ⟨rfl, -⟩⟩ := hvalue.spaced
    · exact List.mem_cons_of_mem _ (List.mem_append_left _ hmem)
    · exact List.mem_append_left _ hmem
  exact isValue_plain (by simpa using hopens.named) hopens.word hfeed' hvalue.trimmed

def Names (line name : String) : Prop :=
  IsFlag line name ∨ ∃ value, IsValue line name value

theorem Names.exists_parse {line name : String} (h : Names line name) :
    ∃ directive, parse line = some directive ∧ directive.name = name := by
  obtain h | ⟨value, h⟩ := h
  · exact ⟨_, parse_eq_flag_iff.2 h, rfl⟩
  · exact ⟨_, parse_eq_value_iff.2 h, rfl⟩

/-- A line is read as a bare name or as a name with a value exactly if it has that form.  No line
has both forms or two names, and a value that is read is read again from the plain form. -/
theorem parse_iff_form (line : String) :
    (∀ name, parse line = some (.flag name) ↔ IsFlag line name) ∧
    (∀ name value, parse line = some (.value name value) ↔ IsValue line name value) ∧
    (∀ name other value, IsFlag line name → ¬ IsValue line other value) ∧
    (∀ name other, Names line name → Names line other → name = other) ∧
    ∀ name value, parse line = some (.value name value) →
      parse ("// @" ++ name ++ ": " ++ value) = some (.value name value) := by
  refine ⟨fun name ↦ parse_eq_flag_iff, fun name value ↦ parse_eq_value_iff, ?_, ?_, ?_⟩
  · intro name other value hflag hvalue
    have hparse := (parse_eq_flag_iff.2 hflag).symm.trans (parse_eq_value_iff.2 hvalue)
    cases hparse
  · intro name other hname hother
    obtain ⟨directive, hdirective, rfl⟩ := hname.exists_parse
    obtain ⟨again, hagain, rfl⟩ := hother.exists_parse
    rw [Option.some.inj (hdirective.symm.trans hagain)]
  · intro name value hparse
    exact parse_eq_value_iff.2 (parse_eq_value_iff.1 hparse).plain

theorem parse_iff_form_spaces_and_colon :
    parse "//\u00a0@outDir:  c:\\out \t\r" = some (.value "outDir" " c:\\out") ∧
      parse ("// @" ++ "outDir" ++ ": " ++ " c:\\out") = some (.value "outDir" " c:\\out") := by
  have hparse : parse "//\u00a0@outDir:  c:\\out \t\r" = some (.value "outDir" " c:\\out") := by
    decide +kernel
  obtain ⟨-, -, -, -, hplain⟩ := parse_iff_form "//\u00a0@outDir:  c:\\out \t\r"
  exact ⟨hparse, hplain _ _ hparse⟩

end Directive

end VersionSweep
