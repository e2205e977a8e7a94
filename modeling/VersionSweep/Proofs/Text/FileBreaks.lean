import VersionSweep.Proofs.Text.Bytes
import VersionSweep.Text.Line

/-!
# Line breaks of a file

A file that is put together from a snippet has a carriage return before each line feed.  An offset
in the text comes to one in the file that is greater by the number of line feeds before it.
-/

namespace VersionSweep.Text

variable {c : Char} {cs : List Char}

/-- A text with its line feeds written as the line breaks of a file. -/
def fileBreaks (cs : List Char) : List Char :=
  cs.flatMap fun c ↦ if c = '\n' then lineBreak.toList else [c]

/-- Where an offset in a text comes to when its line feeds are written as the line breaks of a file.
-/
def fileOffset (cs : List Char) (offset : Nat) : Nat :=
  offset + lineIndex cs offset

@[simp] theorem fileBreaks_nil : fileBreaks [] = [] := rfl

theorem fileBreaks_feed (cs : List Char) :
    fileBreaks ('\n' :: cs) = '\r' :: '\n' :: fileBreaks cs := rfl

theorem fileBreaks_cons (hc : c ≠ '\n') (cs : List Char) :
    fileBreaks (c :: cs) = c :: fileBreaks cs := by
  rw [fileBreaks, List.flatMap_cons, if_neg hc]
  rfl

theorem fileBreaks_append (cs ds : List Char) :
    fileBreaks (cs ++ ds) = fileBreaks cs ++ fileBreaks ds :=
  List.flatMap_append

theorem fileBreaks_eq_cons {more : List Char} (hc : c ≠ '\r')
    (h : fileBreaks cs = c :: more) : ∃ rest, cs = c :: rest := by
  cases cs with
  | nil => cases h
  | cons d rest =>
    by_cases hd : d = '\n'
    · subst hd
      exact absurd (List.cons.inj h).1.symm hc
    · rw [fileBreaks_cons hd] at h
      exact ⟨rest, by rw [(List.cons.inj h).1]⟩

theorem contains_fileBreaks (cs : List Char) :
    (fileBreaks cs).contains '\n' = cs.contains '\n' := by
  induction cs with
  | nil => rfl
  | cons c cs ih =>
    by_cases hc : c = '\n'
    · subst hc
      rw [fileBreaks_feed, List.contains_cons, List.contains_cons, List.contains_cons]
      rfl
    · rw [fileBreaks_cons hc, List.contains_cons, List.contains_cons, ih]

theorem byteLength_fileBreaks (cs : List Char) :
    byteLength (fileBreaks cs) = byteLength cs + cs.count '\n' := by
  induction cs with
  | nil => rfl
  | cons c cs ih =>
    by_cases hc : c = '\n'
    · subst hc
      have hreturn : ('\r').utf8Size = 1 := rfl
      rw [fileBreaks_feed, byteLength_cons, byteLength_cons, byteLength_cons, ih,
        List.count_cons_self]
      omega
    · rw [fileBreaks_cons hc, byteLength_cons, byteLength_cons, ih, List.count_cons_of_ne hc]
      omega

/-- What is before an offset is as long in the file as the offset says. -/
theorem fileOffset_append (before after : List Char) :
    fileOffset (before ++ after) (byteLength before) = byteLength (fileBreaks before) := by
  rw [fileOffset, lineIndex_eq_count_bytes, bytes_append, ← length_bytes before, List.take_left,
    count_bytes, length_bytes, byteLength_fileBreaks]

theorem fileOffset_le_iff (cs : List Char) (a b : Nat) :
    fileOffset cs a ≤ fileOffset cs b ↔ a ≤ b := by
  unfold fileOffset
  obtain hlt | hle := Nat.lt_or_ge b a
  · have hindex := lineIndex_mono cs (Nat.le_of_lt hlt)
    omega
  · have hindex := lineIndex_mono cs hle
    omega

theorem takeWhile_fileBreaks {p : Char → Bool} (hfeed : p '\n' = false) (hreturn : p '\r' = false)
    (cs : List Char) :
    (fileBreaks cs).takeWhile p = cs.takeWhile p ∧
      (fileBreaks cs).dropWhile p = fileBreaks (cs.dropWhile p) := by
  induction cs with
  | nil => exact ⟨rfl, rfl⟩
  | cons c cs ih =>
    by_cases hc : c = '\n'
    · subst hc
      simp [fileBreaks_feed, hfeed, hreturn]
    · rw [fileBreaks_cons hc]
      cases hp : p c with
      | true => simp [hp, ih]
      | false => simp [hp, fileBreaks_cons hc]

/-- Whether `f` says where the offsets in a text come to that begins at `offset`, if it begins at
`offset'` with its line feeds written as the line breaks of a file. -/
def Leads (f : Nat → Nat) (offset offset' : Nat) (cs : List Char) : Prop :=
  ∀ before after, cs = before ++ after →
    f (offset + byteLength before) = offset' + byteLength (fileBreaks before)

namespace Leads

variable {f : Nat → Nat} {offset offset' : Nat}

theorem start (h : Leads f offset offset' cs) : f offset = offset' :=
  h [] cs rfl

theorem drop {before : List Char} (h : Leads f offset offset' (before ++ cs)) :
    Leads f (offset + byteLength before) (offset' + byteLength (fileBreaks before)) cs := by
  rintro first after rfl
  have hboth := h (before ++ first) after (List.append_assoc ..).symm
  rwa [fileBreaks_append, byteLength_append, byteLength_append, ← Nat.add_assoc,
    ← Nat.add_assoc] at hboth

end Leads

/-- Whether no line feed comes right behind a backslash. -/
def FeedsUnescaped (cs : List Char) : Prop :=
  ¬['\\', '\n'] <:+: cs

instance (cs : List Char) : Decidable (FeedsUnescaped cs) :=
  inferInstanceAs (Decidable ¬['\\', '\n'] <:+: cs)

theorem FeedsUnescaped.drop (before : List Char) (h : FeedsUnescaped (before ++ cs)) :
    FeedsUnescaped cs :=
  fun hinside ↦ h (hinside.trans (List.suffix_append before cs).isInfix)

end VersionSweep.Text
