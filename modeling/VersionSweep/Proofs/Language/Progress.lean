import VersionSweep.Proofs.Language.Coverage
import VersionSweep.Proofs.Language.Repetition

/-!
# Rounds of reading

A file is read in rounds.  Each round gives a statement, a finding or, for an empty statement,
nothing, and takes tokens from the front of those that are left.  It takes at least one, whether its
statement was read or not, so the rounds come to an end and there are no more statements and
findings than tokens, `rounds_take_tokens`.  Within a round the things between commas take a token
each.
-/

namespace VersionSweep

namespace Reader

variable {α : Type}

theorem consumes_ident : Consumes ident := by
  intro s name rest h
  obtain ⟨-, -, -, hpasses⟩ := ident_eq_read h
  rw [hpasses.size_eq]
  exact Nat.lt_add_of_pos_left Nat.one_pos

/-- Whether a reader reads things up to a closing punctuator, one after the other as long as there
are commas between them. -/
def Lists (close : Char) (item : Reader α) (list : Reader (List α)) : Prop :=
  ∀ s : Stream, list s =
    if s.next.isPunctuator close then .read [] s
    else (item s).bind fun value rest ↦
      if rest.next.isPunctuator ',' then (list rest.skip).map (value :: ·)
      else .read [value] rest

/-- If each thing takes a token, the reading goes on behind every comma. -/
theorem lists_separated (close : Char) {item : Reader α} (h : Consumes item) :
    Lists close item (separated close item) := by
  intro s
  rw [separated.eq_def]
  split
  · rfl
  · cases hread : item s with
    | failed finding rest => rfl
    | read value rest =>
      have hshorter : rest.skip.size < s.size :=
        Nat.lt_of_le_of_lt rest.size_skip_le (h s value rest hread)
      rw [Reading.bind_read]
      dsimp only
      rw [dif_pos hshorter]

end Reader

namespace Parsing

variable {s rest : Stream}

/-- A round takes some tokens and passes the stream on to where the next one begins. -/
theorem exists_passes_step (hs : s.tokens ≠ []) :
    ∃ used, used ≠ [] ∧ s.Passes used (step s).2 := by
  obtain ⟨used, hused⟩ := leaves_step s
  refine ⟨used, ?_, hused⟩
  rintro rfl
  have hsize := hused.size_eq
  have hlt := size_step_lt hs
  rw [List.length_nil, Nat.zero_add] at hsize
  exact absurd hsize (Nat.ne_of_gt hlt)

structure Round where
  used : List Token
  item : Item

/-- The rounds in which a stream is read until another one is left.  There may be one more as long
as there are tokens. -/
inductive Rounds : Stream → List Round → Stream → Prop
  | nil (s : Stream) : Rounds s [] s
  | cons {s rest : Stream} {used : List Token} {rounds : List Round} (hs : s.tokens ≠ [])
      (hused : s.Passes used (step s).2) (hrest : Rounds (step s).2 rounds rest) :
      Rounds s (⟨used, (step s).1⟩ :: rounds) rest

namespace Rounds

variable {rounds : List Round}

theorem tokens_eq (h : Rounds s rounds rest) :
    s.tokens = rounds.flatMap Round.used ++ rest.tokens := by
  induction h with
  | nil => rfl
  | cons _ hused _ ih => rw [List.flatMap_cons, List.append_assoc, ← ih, ← hused.tokens_eq]

/-- Each round costs a token. -/
theorem length_add_size_le (h : Rounds s rounds rest) : rounds.length + rest.size ≤ s.size := by
  induction h with
  | nil => exact Nat.le_of_eq (Nat.zero_add _)
  | cons hs _ _ ih =>
    have hlt := size_step_lt hs
    rw [List.length_cons]
    omega

/-- The rounds come to the end of every stream. -/
theorem exists_finished (s : Stream) :
    ∃ rounds rest, Rounds s rounds rest ∧ rest.tokens = [] ∧
      rounds.map Round.item = items s := by
  fun_induction items s with
  | case1 s hs => exact ⟨[], s, .nil s, hs, rfl⟩
  | case2 s hs ih =>
    obtain ⟨rounds, rest, hrounds, hrest, hitems⟩ := ih
    obtain ⟨used, -, hused⟩ := exists_passes_step hs
    exact ⟨_, rest, .cons hs hused hrounds, hrest, congrArg (_ :: ·) hitems⟩

end Rounds

/-- An item is a statement or a finding, but not both. -/
theorem length_statements_add_findings_le (items : List Item) :
    (items.filterMap Item.statement?).length + (items.filterMap Item.finding?).length ≤
      items.length := by
  induction items with
  | nil => exact Nat.le_refl _
  | cons item items ih =>
    simp only [List.filterMap_cons, List.length_cons]
    cases item with
    | statement value =>
      dsimp only [Item.statement?, Item.finding?, List.length_cons]
      omega
    | finding value =>
      dsimp only [Item.statement?, Item.finding?, List.length_cons]
      omega
    | empty => exact Nat.le_succ_of_le ih

/-- A file is read in rounds to its end.  Wherever a round begins it takes at least one token, none
of which is the end of the text, so at no time have there been more rounds than tokens.  What the
rounds give are the statements of the file and the findings beside those about tokens, and these are
together no more than the tokens.  Within a round, names and arguments are read as long as there are
commas between them. -/
theorem rounds_take_tokens (name text : String) (target : Int) :
    let scan := Token.scan 0 text.toList
    let file := SourceFile.parse name text target
    (∀ token ∈ scan.tokens, token.kind ≠ .endOfText) ∧
    (∀ s : Stream, s.tokens ≠ [] → ∃ used, used ≠ [] ∧ s.Passes used (step s).2) ∧
    (∀ rounds rest, Rounds (.ofScan scan) rounds rest →
      scan.tokens = rounds.flatMap Round.used ++ rest.tokens ∧
      rounds.length + rest.size ≤ scan.tokens.length) ∧
    (∃ rounds rest, Rounds (.ofScan scan) rounds rest ∧ rest.tokens = [] ∧
      file.statements = rounds.filterMap (·.item.statement?) ∧
      file.findings.Perm (scan.findings ++ rounds.filterMap (·.item.finding?)) ∧
      file.statements.length + (rounds.filterMap (·.item.finding?)).length ≤
        scan.tokens.length) ∧
    Reader.Lists '}' Reader.ident (Reader.separated '}' Reader.ident) ∧
    ∀ levels, Reader.Lists ')' (Expression.read levels)
      (Reader.separated ')' (Expression.read levels)) := by
  intro scan file
  obtain ⟨last, hcovers⟩ := Token.exists_covers_scan text.toList
  refine ⟨hcovers.kind, fun s ↦ exists_passes_step, fun rounds rest h ↦ ?_, ?_, ?_, fun levels ↦ ?_⟩
  · exact ⟨h.tokens_eq, h.length_add_size_le⟩
  · obtain ⟨rounds, rest, hrounds, hrest, hitems⟩ := Rounds.exists_finished (.ofScan scan)
    have hstatements : file.statements = rounds.filterMap (·.item.statement?) := by
      change (items (.ofScan scan)).filterMap Item.statement? = _
      rw [← hitems, List.filterMap_map]
      rfl
    have hfindings : (items (.ofScan scan)).filterMap Item.finding? =
        rounds.filterMap (·.item.finding?) := by
      rw [← hitems, List.filterMap_map]
      rfl
    refine ⟨rounds, rest, hrounds, hrest, hstatements, ?_, ?_⟩
    · rw [← hfindings]
      exact List.mergeSort_perm _ _
    · calc file.statements.length + (rounds.filterMap (·.item.finding?)).length
          ≤ (items (.ofScan scan)).length := by
            rw [← hfindings]
            exact length_statements_add_findings_le _
        _ = rounds.length := by rw [← hitems, List.length_map]
        _ ≤ scan.tokens.length :=
          Nat.le_trans (Nat.le_add_right _ _) hrounds.length_add_size_le
  · exact Reader.lists_separated '}' Reader.consumes_ident
  · exact Reader.lists_separated ')' (Expression.consumes_read levels)

/-- A brace at which no statement can begin is taken, and what comes behind it is still read. -/
theorem rounds_take_tokens_stray_brace :
    let s := Stream.ofScan (Token.scan 0 "\x7d a;".toList)
    s.tokens ≠ [] ∧ (∃ used, used ≠ [] ∧ s.Passes used (step s).2) ∧
      ∃ rounds rest, Rounds s rounds rest ∧ rest.tokens = [] := by
  intro s
  have hs : s.tokens ≠ [] := by decide +kernel
  obtain ⟨-, hstep, -, ⟨rounds, rest, hrounds, hrest, -⟩, -⟩ :=
    rounds_take_tokens "a.ts" "\x7d a;" 1
  exact ⟨hs, hstep s hs, rounds, rest, hrounds, hrest⟩

end Parsing

end VersionSweep
