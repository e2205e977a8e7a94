import VersionSweep.Proofs.Report.LineBreakDrift

/-!
# The two sides of a comparison

A list of changes holds the lines of both blocks that it was made from, those of the older block on
one side and those of the newer on the other.  Lines stand beside each other as long as both blocks
have some, and what the longer block has left comes behind.
-/

namespace VersionSweep

namespace LineChange

def older? : LineChange → Option String
  | added _ => none
  | removed line => some line
  | modified old _ => some old
  | unchanged line => some line

def newer? : LineChange → Option String
  | added line => some line
  | removed _ => none
  | modified _ new => some new
  | unchanged line => some line

def swapped : LineChange → LineChange
  | added line => removed line
  | removed line => added line
  | modified old new => modified new old
  | unchanged line => unchanged line

/-- Whether a change has a line on both sides, and not the same one if it is called modified. -/
def Paired : LineChange → Prop
  | added _ => False
  | removed _ => False
  | modified old new => old ≠ new
  | unchanged _ => True

/-- What becomes of a line when another one stands at its place. -/
def beside (old new : String) : LineChange :=
  if old = new then unchanged old else modified old new

variable (old new : String)

@[simp] theorem older?_beside : (beside old new).older? = some old := by
  unfold beside
  split <;> rfl

@[simp] theorem swapped_beside : (beside old new).swapped = beside new old := by
  by_cases h : old = new
  · simp [beside, h, swapped]
  · simp [beside, h, Ne.symm h, swapped]

theorem paired_beside : (beside old new).Paired := by
  unfold beside
  split
  · trivial
  · assumption

@[simp] theorem older?_swapped (change : LineChange) : change.swapped.older? = change.newer? := by
  cases change <;> rfl

variable (olds news : List String)

theorem filterMap_older?_between : (between olds news).filterMap older? = olds := by
  induction olds, news using between.induct with
  | case1 => rw [between, List.filterMap_nil]
  | case2 old olds ih => rw [between, List.filterMap_cons_some (by rfl), ih]
  | case3 new news ih => rw [between, List.filterMap_cons_none (by rfl), ih]
  | case4 old olds new news ih =>
    rw [between, ← beside, List.filterMap_cons_some (older?_beside old new), ih]

theorem between_comm : between news olds = (between olds news).map swapped := by
  induction olds, news using between.induct with
  | case1 => rw [between, List.map_nil]
  | case2 old olds ih => rw [between, between, List.map_cons, ← ih, swapped]
  | case3 new news ih => rw [between, between, List.map_cons, ← ih, swapped]
  | case4 old olds new news ih =>
    rw [between, between, List.map_cons, ← ih, ← beside, ← beside, swapped_beside]

/-- The newer side is the older side of the comparison that leads back. -/
theorem filterMap_newer?_between : (between olds news).filterMap newer? = news := by
  have hback := filterMap_older?_between news olds
  rw [between_comm, List.filterMap_map] at hback
  simpa [Function.comp_def] using hback

/-- Lines beside each other come first, then what one of the two has left. -/
theorem between_eq : between olds news =
    List.zipWith beside olds news ++
      ((olds.drop news.length).map removed ++ (news.drop olds.length).map added) := by
  induction olds, news using between.induct with
  | case1 => simp [between]
  | case2 old olds ih => simp [between, ih]
  | case3 new news ih => simp [between, ih]
  | case4 old olds new news ih => simp [between, ih, beside]

/-- Lines of one block alone come only at the end, and only of one of the two blocks. -/
theorem exists_between_eq_append :
    ∃ shared rest, between olds news = shared ++ rest ∧ (∀ change ∈ shared, change.Paired) ∧
      ((∃ lines : List String, rest = lines.map added) ∨
        ∃ lines : List String, rest = lines.map removed) := by
  refine ⟨_, _, between_eq olds news, fun change hchange ↦ ?_, ?_⟩
  · obtain ⟨i, hi, rfl⟩ := List.mem_iff_getElem.1 hchange
    rw [List.getElem_zipWith]
    exact paired_beside _ _
  · rcases Nat.le_total olds.length news.length with hle | hle
    · rw [List.drop_eq_nil_of_le hle]
      exact .inl ⟨_, rfl⟩
    · rw [List.drop_eq_nil_of_le hle, List.map_nil, List.append_nil]
      exact .inr ⟨_, rfl⟩

/-- A comparison of two blocks is made of their lines in order, one side being those of the older
block and one those of the newer.  Only behind all lines that stand beside each other are there
lines of one block alone.  Compared the other way round the two sides are exchanged, and no change
is found exactly if the blocks have the same lines. -/
theorem sides_ofBlocks (old new : String) :
    ((ofBlocks old new).filterMap older? = Text.blockLines old ∧
      Text.HasLines old ((ofBlocks old new).filterMap older?)) ∧
    ((ofBlocks old new).filterMap newer? = Text.blockLines new ∧
      Text.HasLines new ((ofBlocks old new).filterMap newer?)) ∧
    (∃ shared rest, ofBlocks old new = shared ++ rest ∧ (∀ change ∈ shared, change.Paired) ∧
      ((∃ lines : List String, rest = lines.map added) ∨
        ∃ lines : List String, rest = lines.map removed)) ∧
    ofBlocks new old = (ofBlocks old new).map swapped ∧
    ((∀ change ∈ ofBlocks old new, change.isChange = false) ↔
      Text.blockLines old = Text.blockLines new) := by
  have holder : (ofBlocks old new).filterMap older? = Text.blockLines old :=
    filterMap_older?_between _ _
  have hnewer : (ofBlocks old new).filterMap newer? = Text.blockLines new :=
    filterMap_newer?_between _ _
  refine ⟨⟨holder, ?_⟩, ⟨hnewer, ?_⟩, exists_between_eq_append _ _, between_comm _ _, ?_⟩
  · rw [holder]
    exact Text.hasLines_blockLines old
  · rw [hnewer]
    exact Text.hasLines_blockLines new
  · have hany := any_isChange_between (Text.blockLines old) (Text.blockLines new)
    rw [← not_iff_not, ← ne_eq, ← hany, List.any_eq_true]
    simp [ofBlocks]

/-- A carriage return is left out before a line feed but not at the end. -/
example : ofBlocks "same\r\nold\r" "same\nnew\nmore" =
    [unchanged "same", modified "old\r" "new", added "more"] := by
  rw [ofBlocks, between_eq]
  decide +kernel

end LineChange

end VersionSweep
