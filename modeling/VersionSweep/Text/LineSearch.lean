import VersionSweep.Text.Slice

/-!
# Search for the ends of a line

The line that an offset lies in begins behind the last line feed before the offset and ends before
the first one from there on, or else at the ends of the text.  Both searches go by bytes.
-/

namespace VersionSweep.Text

/-- The last place in a list that passes a test. -/
def lastIdx? {α : Type} (test : α → Bool) (xs : List α) : Option Nat :=
  (xs.reverse.findIdx? test).map fun i ↦ xs.length - 1 - i

/-- Where the line begins that an offset lies in. -/
def lineStart? (cs : List Char) (offset : Nat) : Option Nat := do
  let before ← bytesBefore? cs offset
  match lastIdx? (· == feedByte) before with
  | some i => return i + 1
  | none => return 0

/-- Where the line ends that an offset lies in. -/
def lineEnd? (cs : List Char) (offset : Nat) : Option Nat := do
  let behind ← bytesFrom? cs offset
  match behind.findIdx? (· == feedByte) with
  | some i => return offset + i
  | none => return byteLength cs

section Search

variable {α : Type} {test : α → Bool} {xs : List α} {i : Nat}

theorem exists_append_of_findIdx?_eq_some (h : xs.findIdx? test = some i) :
    ∃ front x back, xs = front ++ x :: back ∧ front.length = i ∧ test x = true ∧
      ∀ y ∈ front, test y = false := by
  induction xs generalizing i with
  | nil => cases h
  | cons x xs ih =>
    rw [List.findIdx?_cons] at h
    cases hx : test x with
    | true =>
      rw [hx, if_pos rfl] at h
      obtain rfl := Option.some.inj h
      exact ⟨[], x, xs, rfl, rfl, hx, fun y hy ↦ (List.not_mem_nil hy).elim⟩
    | false =>
      rw [hx, if_neg Bool.false_ne_true, Option.map_eq_some_iff] at h
      obtain ⟨j, hj, rfl⟩ := h
      obtain ⟨front, found, back, rfl, rfl, hfound, hfront⟩ := ih hj
      exact ⟨x :: front, found, back, rfl, rfl, hfound, List.forall_mem_cons.2 ⟨hx, hfront⟩⟩

theorem exists_append_of_lastIdx?_eq_some (h : lastIdx? test xs = some i) :
    ∃ front x back, xs = front ++ x :: back ∧ front.length = i ∧ test x = true ∧
      ∀ y ∈ back, test y = false := by
  rw [lastIdx?, Option.map_eq_some_iff] at h
  obtain ⟨j, hj, rfl⟩ := h
  obtain ⟨front, x, back, hxs, rfl, hx, hfront⟩ := exists_append_of_findIdx?_eq_some hj
  have hsplit : xs = back.reverse ++ x :: front.reverse := by
    rw [← List.reverse_reverse xs, hxs]
    simp
  refine ⟨back.reverse, x, front.reverse, hsplit, ?_, hx, fun y hy ↦ ?_⟩
  · rw [hsplit, List.length_append, List.length_cons, List.length_reverse, List.length_reverse]
    omega
  · exact hfront y (List.mem_reverse.1 hy)

theorem eq_false_of_lastIdx?_eq_none (h : lastIdx? test xs = none) (x : α) (hx : x ∈ xs) :
    test x = false := by
  rw [lastIdx?, Option.map_eq_none_iff, List.findIdx?_eq_none_iff] at h
  exact h x (List.mem_reverse.2 hx)

end Search

section Line

variable {cs : List Char} {offset : Nat}

/-- What is before the line that an offset lies in. -/
structure BeforeLine (cs : List Char) (offset : Nat) (before : List Char) : Prop where
  isPrefix : before <+: cs
  le : byteLength before ≤ offset
  opens : before = [] ∨ before.getLast? = some '\n'
  count : before.count '\n' = ((bytes cs).take offset).count feedByte

/-- What is before the end of the line that an offset lies in, and what is behind it. -/
structure AroundEnd (cs : List Char) (offset : Nat) (upTo after : List Char) : Prop where
  eq_append : cs = upTo ++ after
  le : offset ≤ byteLength upTo
  closes : after = [] ∨ after.head? = some '\n'
  count : upTo.count '\n' = ((bytes cs).take offset).count feedByte

theorem exists_lineStart? (h : offset ≤ byteLength cs) :
    ∃ before, lineStart? cs offset = some (byteLength before) ∧ BeforeLine cs offset before := by
  have hbefore : bytesBefore? cs offset = some ((bytes cs).take offset) := if_pos h
  cases hlast : lastIdx? (· == feedByte) ((bytes cs).take offset) with
  | none =>
    refine ⟨[], by simp [lineStart?, hbefore, hlast], List.nil_prefix, Nat.zero_le _, .inl rfl, ?_⟩
    have hfree := eq_false_of_lastIdx?_eq_none hlast
    exact (List.count_eq_zero.2 fun hmem ↦ absurd (hfree _ hmem) (by decide)).symm
  | some i =>
    obtain ⟨front, byte, back, htake, rfl, hbyte, hback⟩ :=
      exists_append_of_lastIdx?_eq_some hlast
    obtain rfl := beq_iff_eq.1 hbyte
    have hbytes : bytes cs = front ++ feedByte :: (back ++ (bytes cs).drop offset) := by
      rw [← List.cons_append, ← List.append_assoc, ← htake, List.take_append_drop]
    obtain ⟨before, after, rfl, rfl⟩ := exists_append_of_bytes_eq hbytes
    have hsize : byteLength (before ++ ['\n']) = (bytes before).length + 1 := by
      rw [byteLength_append, length_bytes]
      rfl
    have hle : byteLength (before ++ ['\n']) ≤ offset := by
      have hlength := congrArg List.length htake
      rw [List.length_take, List.length_append, List.length_cons] at hlength
      omega
    have hfree : back.count feedByte = 0 :=
      List.count_eq_zero.2 fun hmem ↦ absurd (hback _ hmem) (by decide)
    refine ⟨before ++ ['\n'], by simp [lineStart?, hbefore, hlast, hsize],
      ⟨after, (List.append_cons ..).symm⟩, hle, .inr List.getLast?_concat, ?_⟩
    rw [htake, List.count_append, List.count_append, count_bytes, List.count_singleton_self,
      List.count_cons_self, hfree]

theorem exists_lineEnd? (h : offset ≤ byteLength cs) :
    ∃ upTo after, lineEnd? cs offset = some (byteLength upTo) ∧
      AroundEnd cs offset upTo after := by
  have hbehind : bytesFrom? cs offset = some ((bytes cs).drop offset) := if_pos h
  cases hfirst : ((bytes cs).drop offset).findIdx? (· == feedByte) with
  | none =>
    refine ⟨cs, [], by simp [lineEnd?, hbehind, hfirst], (List.append_nil cs).symm, h, .inl rfl, ?_⟩
    have hfree : ((bytes cs).drop offset).count feedByte = 0 := by
      rw [List.findIdx?_eq_none_iff] at hfirst
      exact List.count_eq_zero.2 fun hmem ↦ absurd (hfirst _ hmem) (by decide)
    have hsplit := congrArg (List.count feedByte) (List.take_append_drop offset (bytes cs))
    rw [List.count_append, hfree, count_bytes] at hsplit
    exact hsplit.symm
  | some i =>
    obtain ⟨front, byte, back, hdrop, rfl, hbyte, hfront⟩ :=
      exists_append_of_findIdx?_eq_some hfirst
    obtain rfl := beq_iff_eq.1 hbyte
    have hbytes : bytes cs = (bytes cs).take offset ++ front ++ feedByte :: back := by
      rw [List.append_assoc, ← hdrop, List.take_append_drop]
    obtain ⟨upTo, after, hcs, hupTo⟩ := exists_append_of_bytes_eq hbytes
    have hsize : byteLength upTo = offset + front.length := by
      rw [← length_bytes, hupTo, List.length_append, List.length_take, length_bytes,
        Nat.min_eq_left h]
    have hfree : front.count feedByte = 0 :=
      List.count_eq_zero.2 fun hmem ↦ absurd (hfront _ hmem) (by decide)
    refine ⟨upTo, '\n' :: after, by simp [lineEnd?, hbehind, hfirst, hsize], hcs, by omega,
      .inr rfl, ?_⟩
    rw [← count_bytes, hupTo, List.count_append, hfree, Nat.add_zero]

end Line

end VersionSweep.Text
