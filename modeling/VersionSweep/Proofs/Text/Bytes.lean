import VersionSweep.Proofs.Text.PlacedLines
import VersionSweep.Text.Slice

/-!
# Line feeds among the bytes of a text

In the UTF-8 form of a text only a line feed has a byte of the value of a line feed.  So the number
of line feeds before an offset is found by counting bytes, even where the offset points into the
middle of a character.
-/

namespace VersionSweep.Text

theorem data_toUTF8 (text : String) : text.toUTF8.data.toList = bytes text.toList := by
  conv => lhs; rw [← String.ofList_toList (s := text)]
  rw [String.toUTF8_eq_toByteArray, String.toByteArray_ofList, List.utf8Encode,
    List.toList_data_toByteArray, bytes]

theorem countP_placed (start offset : Nat) (cs : List Char) :
    ((placed start cs).countP fun p ↦ p.1 < start + offset && p.2 == '\n') =
      ((bytes cs).take offset).count feedByte := by
  induction cs generalizing start offset with
  | nil => simp [placed, bytes]
  | cons c cs ih =>
    obtain rfl | hpos := Nat.eq_zero_or_pos offset
    · rw [List.take_zero, List.count_nil, List.countP_eq_zero]
      intro p hp
      have hplace := (mem_placed hp).1
      simp
      omega
    -- The rest begins behind the bytes of the character; an offset inside it leaves nothing of it.
    have hrest : ((placed (start + c.utf8Size) cs).countP
        fun p ↦ p.1 < start + offset && p.2 == '\n') =
        ((bytes cs).take (offset - c.utf8Size)).count feedByte := by
      rw [← ih]
      refine List.countP_congr fun p hp ↦ ?_
      have hplace := (mem_placed hp).1
      have hsame : p.1 < start + offset ↔ p.1 < start + c.utf8Size + (offset - c.utf8Size) := by
        omega
      simp only [hsame]
    rw [placed, List.countP_cons, hrest, bytes_cons, List.take_append,
      String.length_utf8EncodeChar, List.count_append]
    by_cases hc : c = '\n'
    · subst hc
      have htake : List.take offset (String.utf8EncodeChar '\n') = [feedByte] :=
        List.take_of_length_le hpos
      simp [htake, hpos, Nat.add_comm]
    · have hfree : feedByte ∉ List.take offset (String.utf8EncodeChar c) :=
        fun h ↦ feedByte_not_mem hc (List.mem_of_mem_take h)
      simp [hc, List.count_eq_zero.2 hfree]

/-- The line feeds before an offset are the bytes of line feeds before it. -/
theorem lineIndex_eq_count_bytes (cs : List Char) (offset : Nat) :
    lineIndex cs offset = ((bytes cs).take offset).count feedByte := by
  rw [lineIndex_eq_countP, ← countP_placed 0 offset cs]
  simp only [Nat.zero_add]

end VersionSweep.Text
