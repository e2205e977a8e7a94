import Mathlib.Data.List.Basic
import Mathlib.Data.Set.Function
import VersionSweep.Diagnostic
import VersionSweep.Text.Line

/-!
# Outlines of messages

A message with its elaborations is written one row per message, each further in the deeper it is in
the tree.  The rows stand in the order of the places in the tree, a message before its elaborations
and these from first to last, so the depths of the rows tell where each of them belongs.  From rows
whose texts begin with no blank the tree can be read back.
-/

namespace VersionSweep.Message

/-- The message at a place of a tree, which tells level by level which elaboration to take. -/
def at? (message : Message) : List Nat → Option Message
  | [] => some message
  | i :: place => message.next[i]?.bind fun elaboration ↦ elaboration.at? place

def Every (P : String → Prop) (message : Message) : Prop :=
  ∀ place found, message.at? place = some found → P found.text

mutual

/-- The texts of a tree with their places, each before those of its elaborations. -/
def nodes : Message → List (List Nat × String)
  | .node text next => ([], text) :: nodesOfList 0 next

def nodesOfList (i : Nat) : List Message → List (List Nat × String)
  | [] => []
  | message :: rest =>
    message.nodes.map (fun node ↦ (i :: node.1, node.2)) ++ nodesOfList (i + 1) rest

end

def outline (depth : Nat) (message : Message) : List (Nat × String) :=
  message.nodes.map fun node ↦ (depth + node.1.length, node.2)

def row (node : Nat × String) : String :=
  indent node.1 ++ node.2

@[elab_as_elim]
theorem tree_induction {P : Message → Prop}
    (node : ∀ text next, (∀ elaboration ∈ next, P elaboration) → P (.node text next)) :
    ∀ message, P message
  | .node text next => node text next fun elaboration _ ↦ tree_induction node elaboration

variable {message : Message} {messages : List Message} {place : List Nat} {text : String}

theorem mem_nodesOfList {i : Nat} : (place, text) ∈ nodesOfList i messages ↔
    ∃ j rest elaboration, place = (i + j) :: rest ∧ messages[j]? = some elaboration ∧
      (rest, text) ∈ elaboration.nodes := by
  induction messages generalizing i with
  | nil => simp [nodesOfList]
  | cons first messages ih =>
    rw [nodesOfList, List.mem_append, ih]
    constructor
    · rintro (h | ⟨j, rest, elaboration, rfl, hget, hmem⟩)
      · obtain ⟨⟨rest, _⟩, hmem, heq⟩ := List.mem_map.1 h
        obtain ⟨rfl, rfl⟩ := Prod.mk.inj heq
        exact ⟨0, rest, first, rfl, rfl, hmem⟩
      · exact ⟨j + 1, rest, elaboration, by rw [Nat.add_right_comm, Nat.add_assoc], hget, hmem⟩
    · rintro ⟨j, rest, elaboration, rfl, hget, hmem⟩
      cases j with
      | zero =>
        obtain rfl := Option.some.inj hget
        exact .inl (List.mem_map.2 ⟨_, hmem, rfl⟩)
      | succ j =>
        exact .inr ⟨j, rest, elaboration, by rw [Nat.add_right_comm, Nat.add_assoc], hget, hmem⟩

/-- The nodes are all that is found in the tree, each under its place. -/
theorem mem_nodes :
    (place, text) ∈ message.nodes ↔ (message.at? place).map Message.text = some text := by
  induction message using tree_induction generalizing place with
  | node own next ih =>
    rw [nodes, List.mem_cons, mem_nodesOfList]
    cases place with
    | nil => simp [at?, Message.text, eq_comm]
    | cons i place =>
      simp only [at?, Message.next, Prod.mk.injEq, List.cons_ne_nil, false_and, false_or,
        Nat.zero_add, List.cons.injEq]
      constructor
      · rintro ⟨j, rest, elaboration, ⟨rfl, rfl⟩, hget, hmem⟩
        rw [hget]
        exact (ih _ (List.mem_of_getElem? hget)).1 hmem
      · intro h
        cases hget : next[i]? with
        | none => simp [hget] at h
        | some elaboration =>
          rw [hget] at h
          exact ⟨i, place, elaboration, ⟨rfl, rfl⟩, hget, (ih _ (List.mem_of_getElem? hget)).2 h⟩

theorem pairwise_nodesOfList {i : Nat}
    (h : ∀ message ∈ messages, message.nodes.Pairwise fun m n ↦ m.1 < n.1) :
    (nodesOfList i messages).Pairwise fun m n ↦ m.1 < n.1 := by
  induction messages generalizing i with
  | nil => exact .nil
  | cons first messages ih =>
    obtain ⟨hfirst, hmessages⟩ := List.forall_mem_cons.1 h
    rw [nodesOfList, List.pairwise_append, List.pairwise_map]
    refine ⟨hfirst.imp fun h ↦ List.cons_lt_cons_iff.2 (.inr ⟨rfl, h⟩), ih hmessages, ?_⟩
    rintro m hm ⟨place, text⟩ hn
    obtain ⟨node, -, rfl⟩ := List.mem_map.1 hm
    obtain ⟨j, rest, -, rfl, -⟩ := mem_nodesOfList.1 hn
    exact List.cons_lt_cons_iff.2 (.inl (by omega))

/-- The order of the nodes is the lexicographic order of their places. -/
theorem pairwise_nodes (message : Message) : message.nodes.Pairwise fun m n ↦ m.1 < n.1 := by
  induction message using tree_induction with
  | node text next ih =>
    rw [nodes, List.pairwise_cons]
    refine ⟨?_, pairwise_nodesOfList ih⟩
    rintro ⟨place, text⟩ hn
    obtain ⟨j, rest, -, rfl, -⟩ := mem_nodesOfList.1 hn
    exact List.nil_lt_cons _ _

theorem map_nodesOfList (depth i : Nat) (messages : List Message) :
    (nodesOfList i messages).map (fun node ↦ (depth + node.1.length, node.2)) =
      messages.flatMap (outline (depth + 1)) := by
  induction messages generalizing i with
  | nil => rfl
  | cons first messages ih =>
    rw [nodesOfList, List.map_append, ih, List.flatMap_cons, outline, List.map_map]
    congr 2
    funext node
    simp only [Function.comp_apply, List.length_cons, Nat.add_assoc, Nat.add_comm 1]

theorem outline_node (depth : Nat) (text : String) (next : List Message) :
    outline depth (.node text next) = (depth, text) :: next.flatMap (outline (depth + 1)) := by
  rw [outline, nodes, List.map_cons, map_nodesOfList]
  rfl

theorem rowsOfList_eq_flatMap (depth : Nat) (messages : List Message) :
    rowsOfList depth messages = messages.flatMap (rows depth) := by
  induction messages with
  | nil => rfl
  | cons first messages ih => rw [rowsOfList, ih, List.flatMap_cons]

/-- Each text makes a row, with the indent of its depth. -/
theorem rows_eq_map_outline (depth : Nat) (message : Message) :
    message.rows depth = (message.outline depth).map row := by
  induction message using tree_induction generalizing depth with
  | node text next ih =>
    rw [rows, outline_node, rowsOfList_eq_flatMap, List.map_cons, List.map_flatMap]
    congr 1
    exact List.flatMap_congr fun elaboration h ↦ ih elaboration h (depth + 1)

theorem rows_zero_eq (message : Message) :
    message.rows 0 = message.nodes.map fun node ↦ indent node.1.length ++ node.2 := by
  rw [rows_eq_map_outline, outline, List.map_map]
  simp only [Function.comp_def, Nat.zero_add, row]

section Every

variable {P : String → Prop}

theorem every_iff : message.Every P ↔ ∀ node ∈ message.nodes, P node.2 := by
  constructor
  · rintro h ⟨place, text⟩ hnode
    obtain ⟨found, hfound, rfl⟩ := Option.map_eq_some_iff.1 (mem_nodes.1 hnode)
    exact h place found hfound
  · intro h place found hfound
    exact h (place, found.text) (mem_nodes.2 (by rw [hfound]; rfl))

instance [DecidablePred P] : Decidable (message.Every P) :=
  decidable_of_iff (∀ node ∈ message.nodes, P node.2) every_iff.symm

theorem Every.of_mem_outline (h : message.Every P) {depth : Nat} {node : Nat × String}
    (hmem : node ∈ message.outline depth) : P node.2 := by
  obtain ⟨_, hnode, rfl⟩ := List.mem_map.1 hmem
  exact every_iff.1 h _ hnode

end Every

theorem not_mem_row {node : Nat × String} (h : '\n' ∉ node.2.toList) :
    '\n' ∉ (row node).toList := by
  rw [row, indent, String.toList_append, String.toList_ofList, List.mem_append, List.mem_replicate]
  rintro (⟨-, hblank⟩ | hmem)
  · exact absurd hblank (by decide)
  · exact h hmem

/-- Without line feeds in its texts, a tree is written in as many lines as it has rows. -/
theorem rawLines_flatten (h : message.Every fun text ↦ '\n' ∉ text.toList) :
    Text.rawLines message.flatten.toList = (message.rows 0).map String.toList := by
  rw [flatten, String.toList_intercalate, Text.rawLines]
  refine List.splitOn_intercalate '\n' ?_ ?_
  · intro line hline
    rw [rows_eq_map_outline, List.map_map] at hline
    obtain ⟨node, hnode, rfl⟩ := List.mem_map.1 hline
    exact not_mem_row (h.of_mem_outline hnode)
  · cases message
    exact List.cons_ne_nil _ _

theorem replicate_append_inj {m n : Nat} {cs ds : List Char} (hcs : cs.head? ≠ some ' ')
    (hds : ds.head? ≠ some ' ')
    (h : List.replicate m ' ' ++ cs = List.replicate n ' ' ++ ds) : m = n ∧ cs = ds := by
  induction m generalizing n with
  | zero =>
    cases n with
    | zero => exact ⟨rfl, h⟩
    | succ n => exact absurd (congrArg List.head? h) hcs
  | succ m ih =>
    cases n with
    | zero => exact absurd (congrArg List.head? h).symm hds
    | succ n =>
      obtain ⟨rfl, rfl⟩ := ih (List.cons.inj h).2
      exact ⟨rfl, rfl⟩

/-- Texts that begin with no blank can be told from the indents in front of them. -/
theorem injOn_row : Set.InjOn row {node | node.2.toList.head? ≠ some ' '} := by
  rintro ⟨depth, text⟩ htext ⟨depth', text'⟩ htext' h
  have hlists := congrArg String.toList h
  simp only [row, indent, String.toList_append, String.toList_ofList] at hlists
  obtain ⟨hdepth, hchars⟩ := replicate_append_inj htext htext' hlists
  obtain rfl := String.toList_inj.1 hchars
  obtain rfl : depth = depth' := by omega
  rfl

theorem map_row_inj {outline outline' : List (Nat × String)}
    (h : ∀ node ∈ outline, node.2.toList.head? ≠ some ' ')
    (h' : ∀ node ∈ outline', node.2.toList.head? ≠ some ' ')
    (heq : outline.map row = outline'.map row) : outline = outline' := by
  induction outline generalizing outline' with
  | nil => exact (List.map_eq_nil_iff.1 heq.symm).symm
  | cons node outline ih =>
    obtain ⟨node', rest, rfl, hnode, hrest⟩ := List.map_eq_cons_iff.1 heq.symm
    obtain ⟨hfirst, hothers⟩ := List.forall_mem_cons.1 h
    obtain ⟨hfirst', hothers'⟩ := List.forall_mem_cons.1 h'
    rw [injOn_row hfirst' hfirst hnode, ih hothers hothers' hrest.symm]

/-- Whether a tree can be read back from its outline.  It ends where a text comes behind it that is
no deeper than its first one. -/
def ReadBack (depth : Nat) (message : Message) : Prop :=
  ∀ (other : Message) (rest rest' : List (Nat × String)), (∀ node ∈ rest.head?, node.1 ≤ depth) →
    (∀ node ∈ rest'.head?, node.1 ≤ depth) →
    message.outline depth ++ rest = other.outline depth ++ rest' → message = other ∧ rest = rest'

section ReadBack

variable {depth : Nat} {rest rest' : List (Nat × String)}

theorem head?_outlines_cons (first : Message) (messages : List Message) :
    ∃ text, ((first :: messages).flatMap (outline depth) ++ rest).head? = some (depth, text) := by
  obtain ⟨text, next⟩ := first
  exact ⟨text, by rw [List.flatMap_cons, outline_node]; rfl⟩

theorem head?_outlines_le (messages : List Message) (hrest : ∀ node ∈ rest.head?, node.1 ≤ depth) :
    ∀ node ∈ (messages.flatMap (outline depth) ++ rest).head?, node.1 ≤ depth := by
  cases messages with
  | nil => exact hrest
  | cons first messages =>
    obtain ⟨text, hhead⟩ := @head?_outlines_cons depth rest first messages
    rintro node hnode
    obtain rfl := Option.some.inj (hhead.symm.trans hnode)
    exact Nat.le_refl _

/-- A row of trees ends where a text comes that is less deep. -/
theorem outlines_append_inj {messages messages' : List Message}
    (hmessages : ∀ message ∈ messages, ReadBack depth message)
    (hrest : ∀ node ∈ rest.head?, node.1 < depth) (hrest' : ∀ node ∈ rest'.head?, node.1 < depth)
    (h : messages.flatMap (outline depth) ++ rest = messages'.flatMap (outline depth) ++ rest') :
    messages = messages' ∧ rest = rest' := by
  induction messages generalizing messages' with
  | nil =>
    cases messages' with
    | nil => exact ⟨rfl, h⟩
    | cons first' messages' =>
      obtain ⟨text, hhead⟩ := @head?_outlines_cons depth rest' first' messages'
      exact absurd (hrest _ ((congrArg List.head? h).trans hhead)) (Nat.lt_irrefl _)
  | cons first messages ih =>
    obtain ⟨hfirst, hmessages⟩ := List.forall_mem_cons.1 hmessages
    cases messages' with
    | nil =>
      obtain ⟨text, hhead⟩ := @head?_outlines_cons depth rest first messages
      exact absurd (hrest' _ ((congrArg List.head? h).symm.trans hhead)) (Nat.lt_irrefl _)
    | cons first' messages' =>
      rw [List.flatMap_cons, List.flatMap_cons, List.append_assoc, List.append_assoc] at h
      obtain ⟨rfl, hmore⟩ := hfirst first' _ _
        (head?_outlines_le messages fun node hnode ↦ Nat.le_of_lt (hrest node hnode))
        (head?_outlines_le messages' fun node hnode ↦ Nat.le_of_lt (hrest' node hnode)) h
      obtain ⟨rfl, rfl⟩ := ih hmessages hmore
      exact ⟨rfl, rfl⟩

theorem readBack (depth : Nat) (message : Message) : ReadBack depth message := by
  induction message using tree_induction generalizing depth with
  | node text next ih =>
    rintro ⟨text', next'⟩ rest rest' hrest hrest' h
    rw [outline_node, outline_node, List.cons_append, List.cons_append, List.cons.injEq,
      Prod.mk.injEq] at h
    obtain ⟨⟨-, rfl⟩, h⟩ := h
    obtain ⟨rfl, rfl⟩ := outlines_append_inj
      (fun elaboration hmem ↦ ih elaboration hmem (depth + 1))
      (fun node hnode ↦ Nat.lt_succ_of_le (hrest node hnode))
      (fun node hnode ↦ Nat.lt_succ_of_le (hrest' node hnode)) h
    exact ⟨rfl, rfl⟩

end ReadBack

theorem outline_injective (depth : Nat) : Function.Injective (outline depth) := by
  intro message message' h
  refine (readBack depth message message' [] [] ?_ ?_ (congrArg (· ++ []) h)).1
  · simp
  · simp

def IsFlush (text : String) : Prop :=
  '\n' ∉ text.toList ∧ text.toList.head? ≠ some ' '

instance : DecidablePred IsFlush :=
  fun text ↦ inferInstanceAs (Decidable ('\n' ∉ text.toList ∧ text.toList.head? ≠ some ' '))

theorem flatten_injOn : Set.InjOn flatten {message | message.Every IsFlush} := by
  intro message hmessage message' hmessage' h
  have hrows : (message.outline 0).map row = (message'.outline 0).map row := by
    have hlines := congrArg (fun text : String ↦ Text.rawLines text.toList) h
    rw [rawLines_flatten fun place found hfound ↦ (hmessage place found hfound).1,
      rawLines_flatten fun place found hfound ↦ (hmessage' place found hfound).1] at hlines
    rw [← rows_eq_map_outline, ← rows_eq_map_outline]
    exact List.map_injective_iff.2 (fun _ _ ↦ String.toList_inj.1) hlines
  exact outline_injective 0 (map_row_inj (fun _ hnode ↦ (hmessage.of_mem_outline hnode).2)
    (fun _ hnode ↦ (hmessage'.of_mem_outline hnode).2) hrows)

/-- A message without line feeds in its texts is written in one line per text, each behind two
blanks for each level that it is deep.  The lines stand in the lexicographic order of the places in
the tree, which puts a message before its elaborations and everything below one of these before the
next.  If moreover no text begins with a blank, no other such message is written the same. -/
theorem preorder_lines_of_flatten (message : Message)
    (h : message.Every fun text ↦ '\n' ∉ text.toList) :
    (∃ nodes : List (List Nat × String),
      nodes.Pairwise (fun m n ↦ m.1 < n.1) ∧
      (∀ place text, (place, text) ∈ nodes ↔
        (message.at? place).map Message.text = some text) ∧
      Text.rawLines message.flatten.toList = nodes.map fun node ↦
        List.replicate (2 * node.1.length) ' ' ++ node.2.toList) ∧
    (message.Every IsFlush → ∀ other : Message, other.Every IsFlush →
      other.flatten = message.flatten → other = message) := by
  refine ⟨⟨message.nodes, message.pairwise_nodes, fun place text ↦ mem_nodes, ?_⟩,
    fun hflush other hother heq ↦ flatten_injOn hother hflush heq⟩
  rw [rawLines_flatten h, rows_zero_eq, List.map_map]
  refine List.map_congr_left fun node _ ↦ ?_
  rw [Function.comp_apply, indent, String.toList_append, String.toList_ofList]

theorem preorder_lines_of_flatten_empty_text :
    let message : Message := .node "a" [.node "b" [.ofText ""], .ofText "c\r"]
    message.Every (fun text ↦ '\n' ∉ text.toList) ∧ message.Every IsFlush ∧
      message.flatten = "a\n  b\n    \n  c\r" ∧
      (∃ nodes : List (List Nat × String),
        nodes.Pairwise (fun m n ↦ m.1 < n.1) ∧
        (∀ place text, (place, text) ∈ nodes ↔
          (message.at? place).map Message.text = some text) ∧
        Text.rawLines message.flatten.toList = nodes.map fun node ↦
          List.replicate (2 * node.1.length) ' ' ++ node.2.toList) ∧
      ∀ other : Message, other.Every IsFlush → other.flatten = message.flatten →
        other = message := by
  intro message
  have hlines : message.Every fun text ↦ '\n' ∉ text.toList := by decide +kernel
  have hflush : message.Every IsFlush := by decide +kernel
  obtain ⟨hnodes, hinjective⟩ := preorder_lines_of_flatten message hlines
  exact ⟨hlines, hflush, by decide +kernel, hnodes, hinjective hflush⟩

end VersionSweep.Message
