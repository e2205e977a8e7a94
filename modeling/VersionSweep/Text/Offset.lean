/-!
# Byte offsets

Places in a text are counted in bytes of its UTF-8 form.  A text is a list of characters, each of
which takes one to four bytes, so an offset may point into the middle of a character; `between`
keeps the characters that begin inside a range of offsets.
-/

namespace VersionSweep.Text

def byteLength : List Char → Nat
  | [] => 0
  | c :: cs => c.utf8Size + byteLength cs

@[simp] theorem byteLength_nil : byteLength [] = 0 := rfl

@[simp] theorem byteLength_cons (c : Char) (cs : List Char) :
    byteLength (c :: cs) = c.utf8Size + byteLength cs := rfl

@[simp] theorem byteLength_append (cs ds : List Char) :
    byteLength (cs ++ ds) = byteLength cs + byteLength ds := by
  induction cs with
  | nil => simp
  | cons c cs ih => simp [ih, Nat.add_assoc]

theorem utf8ByteSize_ofList (cs : List Char) :
    (String.ofList cs).utf8ByteSize = byteLength cs := by
  induction cs with
  | nil => simp
  | cons c cs ih =>
    rw [byteLength_cons, ← ih, String.ofList_cons, String.utf8ByteSize_append]
    simp

theorem prefix_of_byteLength_le {cs first second : List Char} (hfirst : first <+: cs)
    (hsecond : second <+: cs) (h : byteLength first ≤ byteLength second) : first <+: second := by
  obtain hprefix | ⟨more, rfl⟩ := List.prefix_or_prefix_of_prefix hfirst hsecond
  · exact hprefix
  · cases more with
    | nil => exact ⟨[], by rw [List.append_nil, List.append_nil]⟩
    | cons c more =>
      have hpos := c.utf8Size_pos
      rw [byteLength_append, byteLength_cons] at h
      omega

/-- Each character with the offset at which it begins, the first one beginning at `start`. -/
def placed (start : Nat) : List Char → List (Nat × Char)
  | [] => []
  | c :: cs => (start, c) :: placed (start + c.utf8Size) cs

/-- The characters that begin at or after `start` and before `stop`. -/
def between (cs : List Char) (start stop : Nat) : List Char :=
  ((placed 0 cs).filter fun p ↦ start ≤ p.1 && p.1 < stop).map (·.2)

end VersionSweep.Text
