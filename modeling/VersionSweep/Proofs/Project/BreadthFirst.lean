import Mathlib.Data.List.Induction
import Mathlib.Data.List.Nodup
import Mathlib.Data.Set.Basic
import Mathlib.Order.Bounds.Basic

/-!
# Breadth-first order

A graph is given by its roots and by what each node leads to.  Its nodes stand in breadth-first
order if they are what the roots, and then the nodes themselves in turn, mention, each node at its
first mention.  In such an order the distances from the roots never fall, and the nodes are the
least set that holds the roots and all that its members lead to.
-/

namespace VersionSweep

section FirstMention

variable {α : Type*} [DecidableEq α]

/-- One more mention adds an element only if it is the first one. -/
theorem eraseDups_concat (mentions : List α) (a : α) :
    (mentions ++ [a]).eraseDups =
      if a ∈ mentions then mentions.eraseDups else mentions.eraseDups ++ [a] := by
  rw [List.eraseDups_append]
  by_cases h : a ∈ mentions <;> simp [List.removeAll, List.eraseDups_cons, h]

theorem nodup_eraseDups (mentions : List α) : mentions.eraseDups.Nodup := by
  induction mentions using List.reverseRecOn with
  | nil => simp
  | append_singleton mentions a ih =>
    rw [eraseDups_concat]
    by_cases h : a ∈ mentions
    · rwa [if_pos h]
    · rw [if_neg h, List.nodup_append]
      refine ⟨ih, List.nodup_singleton a, fun b hb c hc heq ↦ h ?_⟩
      rw [← List.mem_singleton.1 hc, ← heq]
      exact List.mem_eraseDups.1 hb

/-- What stands before an early mention is an early mention itself. -/
theorem mem_of_eraseDups_append_eq {early late before after : List α} {b : α}
    (h : (early ++ late).eraseDups = before ++ b :: after) (hb : b ∈ early) {a : α}
    (ha : a ∈ before) : a ∈ early := by
  have hnodup : (before ++ b :: after).Nodup := h ▸ nodup_eraseDups _
  rw [List.eraseDups_append, List.append_eq_append_iff] at h
  rcases h with ⟨rest, hbefore, -⟩ | ⟨rest, hearly, -⟩
  · -- The early mentions would end before `b`, which is one of them.
    have hmem : b ∈ before := by
      rw [hbefore]
      exact List.mem_append_left _ (List.mem_eraseDups.2 hb)
    exact (List.disjoint_of_nodup_append hnodup hmem (List.mem_cons_self ..)).elim
  · exact List.mem_eraseDups.1 (hearly ▸ List.mem_append_left _ ha)

end FirstMention

variable {α : Type*} {roots : List α} {next : α → List α}

inductive ReachedIn (roots : List α) (next : α → List α) : ℕ → α → Prop
  | root {a : α} : a ∈ roots → ReachedIn roots next 0 a
  | step {n : ℕ} {a b : α} : ReachedIn roots next n a → b ∈ next a →
      ReachedIn roots next (n + 1) b

def ClosedFrom (roots : List α) (next : α → List α) : Set (Set α) :=
  {s | (∀ a ∈ roots, a ∈ s) ∧ ∀ a ∈ s, ∀ b ∈ next a, b ∈ s}

/-- Whether nodes are all that is reached from the roots, in breadth-first order. -/
structure BreadthFirst [DecidableEq α] (roots : List α) (next : α → List α) (order : List α) :
    Prop where
  mentions : order = (roots ++ order.flatMap next).eraseDups
  sorted : order.Pairwise fun a b ↦ ∀ n, ReachedIn roots next n b →
    ∃ m ≤ n, ReachedIn roots next m a
  least : IsLeast (ClosedFrom roots next) {a | a ∈ order}

theorem ReachedIn.mem_of_closed {n : ℕ} {a : α} (h : ReachedIn roots next n a) {s : Set α}
    (hs : s ∈ ClosedFrom roots next) : a ∈ s := by
  induction h with
  | root ha => exact hs.1 _ ha
  | step _ hb ih => exact hs.2 _ ih _ hb

variable [DecidableEq α] {order : List α}

theorem closed_of_mentions (h : order = (roots ++ order.flatMap next).eraseDups) :
    {a | a ∈ order} ∈ ClosedFrom roots next := by
  constructor
  · intro a ha
    rw [Set.mem_ofPred_eq, h]
    exact List.mem_eraseDups.2 (List.mem_append_left _ ha)
  · intro a ha b hb
    rw [Set.mem_ofPred_eq, h]
    exact List.mem_eraseDups.2 (List.mem_append_right _ (List.mem_flatMap.2 ⟨a, ha, hb⟩))

/-- In an order of first mentions, what stands before a node is not farther from the roots. -/
theorem ReachedIn.exists_le (h : order = (roots ++ order.flatMap next).eraseDups) {n : ℕ} {b : α}
    (hb : ReachedIn roots next n b) {before after : List α} (hsplit : order = before ++ b :: after)
    {a : α} (ha : a ∈ before) : ∃ m ≤ n, ReachedIn roots next m a := by
  induction hb generalizing before after a with
  | root hb =>
    have hroot : a ∈ roots := mem_of_eraseDups_append_eq (h.symm.trans hsplit) hb ha
    exact ⟨0, le_rfl, .root hroot⟩
  | @step n parent b hparent hb ih =>
    have hmem : parent ∈ order := hparent.mem_of_closed (closed_of_mentions h)
    obtain ⟨earlier, later, hparents⟩ := List.append_of_mem hmem
    -- All that is mentioned before the parent is through, `b` being mentioned by then.
    have hmentions :
        ((roots ++ (earlier ++ [parent]).flatMap next) ++ later.flatMap next).eraseDups =
          before ++ b :: after := by
      rw [← hsplit, List.append_assoc, ← List.flatMap_append, List.append_assoc,
        List.singleton_append, ← hparents, ← h]
    have hearly : b ∈ roots ++ (earlier ++ [parent]).flatMap next :=
      List.mem_append_right _ (List.mem_flatMap.2 ⟨parent, by simp, hb⟩)
    rcases List.mem_append.1 (mem_of_eraseDups_append_eq hmentions hearly ha) with hroot | hchild
    · exact ⟨0, Nat.zero_le _, .root hroot⟩
    · obtain ⟨other, hother, hchild⟩ := List.mem_flatMap.1 hchild
      rcases List.mem_append.1 hother with hother | hother
      · obtain ⟨m, hm, hreached⟩ := ih hparents hother
        exact ⟨m + 1, Nat.succ_le_succ hm, hreached.step hchild⟩
      · rw [List.mem_singleton.1 hother] at hchild
        exact ⟨n + 1, le_rfl, hparent.step hchild⟩

/-- An order of first mentions in which every node is reached is breadth first. -/
theorem BreadthFirst.of_mentions (h : order = (roots ++ order.flatMap next).eraseDups)
    (hreached : ∀ a ∈ order, ∃ n, ReachedIn roots next n a) : BreadthFirst roots next order where
  mentions := h
  sorted := by
    rw [List.pairwise_iff_getElem]
    intro i j hi hj hij n hn
    have hsplit : order = order.take j ++ order[j] :: order.drop (j + 1) := by
      rw [← List.drop_eq_getElem_cons hj, List.take_append_drop]
    have hbefore : order[i] ∈ order.take j := List.mem_take_iff_getElem.2 ⟨i, by omega, rfl⟩
    exact hn.exists_le h hsplit hbefore
  least := by
    refine ⟨closed_of_mentions h, fun s hs a ha ↦ ?_⟩
    obtain ⟨n, hn⟩ := hreached a ha
    exact hn.mem_of_closed hs

theorem BreadthFirst.nodup (h : BreadthFirst roots next order) : order.Nodup :=
  h.mentions ▸ nodup_eraseDups _

theorem BreadthFirst.mem_of_root (h : BreadthFirst roots next order) {a : α} (ha : a ∈ roots) :
    a ∈ order :=
  h.least.1.1 a ha

theorem BreadthFirst.mem_of_next (h : BreadthFirst roots next order) {a b : α} (ha : a ∈ order)
    (hb : b ∈ next a) : b ∈ order :=
  h.least.1.2 a ha b hb

end VersionSweep
