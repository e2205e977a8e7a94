import VersionSweep.Proofs.Text.Boundary

/-!
# Lines with their places

The lines of a text are counted by the line feeds before them.  Each piece into which the placed
characters of a text are cut is such a line, with the offsets that its characters have in the text.
-/

namespace VersionSweep.Text

structure LineAt (cs : List Char) (number : Nat) (before line after : List Char) : Prop where
  eq_append : cs = before ++ line ++ after
  /-- The line feed that ends the line is not a part of it. -/
  free : '\n' ∉ line
  opens : before = [] ∨ before.getLast? = some '\n'
  closes : after = [] ∨ after.head? = some '\n'
  number_eq : before.count '\n' = number

namespace LineAt

variable {cs before line after : List Char} {number : Nat} {c : Char}

theorem before_eq_nil (h : LineAt cs 0 before line after) : before = [] := by
  refine h.opens.resolve_right fun hlast ↦ ?_
  exact List.count_eq_zero.1 h.number_eq (List.mem_of_getLast? hlast)

theorem cons_break (h : LineAt cs number before line after) :
    LineAt ('\n' :: cs) (number + 1) ('\n' :: before) line after where
  eq_append := by rw [h.eq_append, List.cons_append, List.cons_append]
  free := h.free
  opens := by
    refine .inr ?_
    obtain rfl | hlast := h.opens
    · rfl
    · rw [List.getLast?_cons, hlast, Option.getD_some]
  closes := h.closes
  number_eq := by rw [List.count_cons_self, h.number_eq]

/-- A character before the first line belongs to it. -/
theorem cons_first (h : LineAt cs 0 before line after) (hc : c ≠ '\n') :
    LineAt (c :: cs) 0 [] (c :: line) after where
  eq_append := by rw [h.eq_append, h.before_eq_nil, List.nil_append, List.nil_append,
    List.cons_append]
  free := by simp [h.free, hc.symm]
  opens := .inl rfl
  closes := h.closes
  number_eq := rfl

theorem cons_later (h : LineAt cs (number + 1) before line after) (hc : c ≠ '\n') :
    LineAt (c :: cs) (number + 1) (c :: before) line after where
  eq_append := by rw [h.eq_append, List.cons_append, List.cons_append]
  free := h.free
  opens := by
    obtain rfl | hlast := h.opens
    · cases h.number_eq
    · exact .inr (by rw [List.getLast?_cons, hlast, Option.getD_some])
  closes := h.closes
  number_eq := by rw [List.count_cons_of_ne hc, h.number_eq]

end LineAt

def breaksLine (p : Nat × Char) : Bool :=
  p.2 == '\n'

theorem length_splitOnP_placed (offset : Nat) (cs : List Char) :
    ((placed offset cs).splitOnP breaksLine).length = cs.count '\n' + 1 := by
  induction cs generalizing offset with
  | nil => rfl
  | cons c cs ih =>
    rw [placed, List.splitOnP_cons_eq_if_modifyHead, List.count_cons]
    by_cases hc : c = '\n'
    · simp [breaksLine, hc, ih]
    · simp [breaksLine, hc, ih]

theorem exists_lineAt (offset : Nat) {cs : List Char} {number : Nat}
    (h : number ≤ cs.count '\n') :
    ∃ before line after, LineAt cs number before line after ∧
      ((placed offset cs).splitOnP breaksLine)[number]? =
        some (placed (offset + byteLength before) line) := by
  induction cs generalizing offset number with
  | nil =>
    obtain rfl : number = 0 := Nat.le_zero.1 h
    exact ⟨[], [], [], ⟨rfl, List.not_mem_nil, .inl rfl, .inl rfl, rfl⟩, rfl⟩
  | cons c cs ih =>
    rw [placed, List.splitOnP_cons_eq_if_modifyHead]
    by_cases hc : c = '\n'
    · subst hc
      have hbreak : breaksLine (offset, '\n') = true := rfl
      rw [if_pos hbreak]
      cases number with
      | zero =>
        exact ⟨[], [], '\n' :: cs, ⟨rfl, List.not_mem_nil, .inl rfl, .inr rfl, rfl⟩, rfl⟩
      | succ number =>
        rw [List.count_cons_self] at h
        obtain ⟨before, line, after, hline, hpiece⟩ :=
          ih (offset + '\n'.utf8Size) (Nat.le_of_succ_le_succ h)
        refine ⟨_, line, after, hline.cons_break, ?_⟩
        rw [List.getElem?_cons_succ, hpiece, byteLength_cons, Nat.add_assoc]
    · have hpass : ¬breaksLine (offset, c) = true := by simpa [breaksLine] using hc
      rw [List.count_cons_of_ne hc] at h
      obtain ⟨before, line, after, hline, hpiece⟩ := ih (offset + c.utf8Size) h
      rw [if_neg hpass]
      cases number with
      | zero =>
        refine ⟨[], c :: line, after, hline.cons_first hc, ?_⟩
        rw [hline.before_eq_nil] at hpiece
        rw [List.getElem?_modifyHead_zero, hpiece]
        rfl
      | succ number =>
        refine ⟨c :: before, line, after, hline.cons_later hc, ?_⟩
        rw [List.getElem?_modifyHead_succ, hpiece, byteLength_cons, Nat.add_assoc]

def lineIndex (cs : List Char) (offset : Nat) : Nat :=
  ((placed 0 cs).filter fun p ↦ p.1 < offset && p.2 == '\n').length

theorem lineIndex_eq_countP (cs : List Char) (offset : Nat) :
    lineIndex cs offset = (placed 0 cs).countP fun p ↦ p.1 < offset && p.2 == '\n' :=
  List.countP_eq_length_filter.symm

theorem lineIndex_mono (cs : List Char) {offset offset' : Nat} (h : offset ≤ offset') :
    lineIndex cs offset ≤ lineIndex cs offset' := by
  rw [lineIndex_eq_countP, lineIndex_eq_countP]
  refine List.countP_mono_left fun p _ hp ↦ ?_
  rw [Bool.and_eq_true, decide_eq_true_eq] at hp ⊢
  exact ⟨Nat.lt_of_lt_of_le hp.1 h, hp.2⟩

theorem lineIndex_le_count (cs : List Char) (offset : Nat) :
    lineIndex cs offset ≤ cs.count '\n' := by
  calc lineIndex cs offset
    _ ≤ (placed 0 cs).countP (breaksLine ·) := by
      rw [lineIndex_eq_countP]
      refine List.countP_mono_left fun p _ hp ↦ ?_
      exact (Bool.and_eq_true _ _ ▸ hp).2
    _ = ((placed 0 cs).map (·.2)).count '\n' := by
      rw [List.count, List.countP_map]
      rfl
    _ = cs.count '\n' := by rw [map_placed]

end VersionSweep.Text
