import VersionSweep.Text.Offset

/-!
# Slices of a text

A text can be cut at an offset only where the offset stands between two characters, so cutting may
fail.  In the UTF-8 form of a text a byte with the value of a line feed stands for a line feed and
for nothing else, so it is safe to cut the text before and behind such a byte, and a search for one
may go by bytes.
-/

namespace VersionSweep.Text

def bytes (cs : List Char) : List UInt8 :=
  cs.flatMap String.utf8EncodeChar

def feedByte : UInt8 := 10

/-- The bytes before an offset, if the text is that long. -/
def bytesBefore? (cs : List Char) (offset : Nat) : Option (List UInt8) :=
  if offset ≤ byteLength cs then some ((bytes cs).take offset) else none

/-- The bytes from an offset on, if the text is that long. -/
def bytesFrom? (cs : List Char) (offset : Nat) : Option (List UInt8) :=
  if offset ≤ byteLength cs then some ((bytes cs).drop offset) else none

/-- The two parts of a text, the first one of the given length in bytes. -/
def cutAt? : List Char → Nat → Option (List Char × List Char)
  | cs, 0 => some ([], cs)
  | [], _ + 1 => none
  | c :: cs, offset + 1 =>
    if c.utf8Size ≤ offset + 1 then
      (cutAt? cs (offset + 1 - c.utf8Size)).map fun (before, after) ↦ (c :: before, after)
    else none

/-- The piece of a text from one offset up to another. -/
def slice? (cs : List Char) (start stop : Nat) : Option (List Char) :=
  if start ≤ stop then do
    let (_, rest) ← cutAt? cs start
    let (piece, _) ← cutAt? rest (stop - start)
    return piece
  else none

theorem bytes_cons (c : Char) (cs : List Char) :
    bytes (c :: cs) = String.utf8EncodeChar c ++ bytes cs :=
  List.flatMap_cons

theorem bytes_append (cs ds : List Char) : bytes (cs ++ ds) = bytes cs ++ bytes ds :=
  List.flatMap_append

theorem length_bytes (cs : List Char) : (bytes cs).length = byteLength cs := by
  induction cs with
  | nil => rfl
  | cons c cs ih =>
    rw [bytes_cons, List.length_append, String.length_utf8EncodeChar, ih, byteLength_cons]

theorem utf8EncodeChar_feed : String.utf8EncodeChar '\n' = [feedByte] := rfl

theorem feedByte_not_mem {c : Char} (hc : c ≠ '\n') : feedByte ∉ String.utf8EncodeChar c := by
  have hcode : c.val.toNat ≠ 10 := by
    intro h
    exact hc (Char.ext (UInt32.toNat_inj.1 h))
  have hbyte (n : Nat) : feedByte = UInt8.ofNat n ↔ n % 256 = 10 := by
    rw [← UInt8.toNat_inj, UInt8.toNat_ofNat']
    exact eq_comm
  unfold String.utf8EncodeChar
  dsimp only
  split
  · rw [List.mem_singleton, hbyte]
    omega
  · repeat' split
    all_goals
      simp only [List.mem_cons, List.not_mem_nil, or_false, hbyte]
      omega

theorem count_bytes (cs : List Char) : (bytes cs).count feedByte = cs.count '\n' := by
  induction cs with
  | nil => rfl
  | cons c cs ih =>
    rw [bytes_cons, List.count_append, ih]
    by_cases hc : c = '\n'
    · subst hc
      rw [List.count_cons_self, utf8EncodeChar_feed, List.count_singleton_self, Nat.add_comm]
    · rw [List.count_cons_of_ne hc, List.count_eq_zero.2 (feedByte_not_mem hc), Nat.zero_add]

theorem take_bytes_append (cs ds : List Char) :
    (bytes (cs ++ ds)).take (byteLength cs) = bytes cs := by
  rw [bytes_append, List.take_left' (length_bytes cs)]

theorem bytesBefore?_append (cs ds : List Char) :
    bytesBefore? (cs ++ ds) (byteLength cs) = some (bytes cs) := by
  rw [bytesBefore?, if_pos (by simp), take_bytes_append]

/-- A byte of a line feed belongs to a line feed of the text. -/
theorem exists_append_of_bytes_eq {cs : List Char} {front back : List UInt8}
    (h : bytes cs = front ++ feedByte :: back) :
    ∃ before after, cs = before ++ '\n' :: after ∧ bytes before = front := by
  induction cs generalizing front with
  | nil => exact absurd h.symm (by simp [bytes])
  | cons c cs ih =>
    rw [bytes_cons] at h
    obtain ⟨more, rfl, hmore⟩ | ⟨more, hchar, hmore⟩ := List.append_eq_append_iff.1 h
    · obtain ⟨before, after, rfl, rfl⟩ := ih hmore
      exact ⟨c :: before, after, rfl, bytes_cons c before⟩
    cases more with
    | nil =>
      rw [List.append_nil] at hchar
      obtain ⟨before, after, rfl, hbefore⟩ := ih (hmore.symm.trans (List.nil_append _).symm)
      exact ⟨c :: before, after, rfl, by rw [bytes_cons, hbefore, hchar, List.append_nil]⟩
    | cons byte more =>
      -- The byte is one of the character's, so it is the character.
      obtain ⟨rfl, -⟩ := List.cons.inj hmore
      have hc : c = '\n' := Decidable.of_not_not fun hc ↦ feedByte_not_mem hc (by simp [hchar])
      subst hc
      rw [utf8EncodeChar_feed] at hchar
      cases front with
      | nil => exact ⟨[], cs, rfl, rfl⟩
      | cons first front => simp at hchar

theorem cutAt?_append (before after : List Char) :
    cutAt? (before ++ after) (byteLength before) = some (before, after) := by
  induction before with
  | nil => rw [byteLength_nil, cutAt?, List.nil_append]
  | cons c before ih =>
    have hpos := c.utf8Size_pos
    obtain ⟨offset, hoffset⟩ : ∃ offset, byteLength (c :: before) = offset + 1 :=
      ⟨byteLength (c :: before) - 1, by rw [byteLength_cons]; omega⟩
    have hsize : c.utf8Size ≤ offset + 1 := by
      rw [← hoffset, byteLength_cons]
      omega
    have hrest : offset + 1 - c.utf8Size = byteLength before := by
      rw [← hoffset, byteLength_cons, Nat.add_sub_cancel_left]
    rw [hoffset, List.cons_append, cutAt?, if_pos hsize, hrest, ih, Option.map_some]

/-- What stands between two cuts of a text can be cut out. -/
theorem slice?_append (before piece after : List Char) :
    slice? (before ++ piece ++ after) (byteLength before) (byteLength (before ++ piece)) =
      some piece := by
  have hle : byteLength before ≤ byteLength (before ++ piece) := by
    rw [byteLength_append]
    exact Nat.le_add_right _ _
  have hlength : byteLength (before ++ piece) - byteLength before = byteLength piece := by
    rw [byteLength_append, Nat.add_sub_cancel_left]
  rw [slice?, if_pos hle, List.append_assoc, cutAt?_append, hlength]
  simp only [Option.bind_eq_bind, Option.bind_some, cutAt?_append]
  rfl

end VersionSweep.Text
