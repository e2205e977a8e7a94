/-!
# Folding of letter case

Names of settings and words of directives are compared without regard to the case of their ASCII
letters.  All other characters, cased or not, are compared as they are.
-/

namespace VersionSweep.Text

/-- A text with its ASCII capitals made small. -/
def foldCase (s : String) : String :=
  String.ofList (s.toList.map Char.toLower)

/-- Equality up to the case of ASCII letters. -/
def sameFolded (s t : String) : Bool :=
  foldCase s == foldCase t

theorem toLower_toLower (c : Char) : c.toLower.toLower = c.toLower := by
  by_cases h : c.val ≥ 'A'.val ∧ c.val ≤ 'Z'.val
  · rw [show c.toLower = _ from dif_pos h]
    refine dif_neg fun h' ↦ ?_
    have h₂ := UInt32.le_iff_toNat_le.1 h.2
    have h₁ := UInt32.le_iff_toNat_le.1 h.1
    have h₃ := UInt32.le_iff_toNat_le.1 h'.2
    rw [UInt32.toNat_add] at h₃
    change 65 ≤ c.val.toNat at h₁
    change c.val.toNat ≤ 90 at h₂
    change (c.val.toNat + 32) % 2 ^ 32 ≤ 90 at h₃
    omega
  · rw [show c.toLower = c from dif_neg h, show c.toLower = c from dif_neg h]

@[simp] theorem foldCase_foldCase (s : String) : foldCase (foldCase s) = foldCase s := by
  rw [foldCase, foldCase, String.toList_ofList, List.map_map]
  exact congrArg String.ofList (List.map_congr_left fun c _ ↦ toLower_toLower c)

end VersionSweep.Text
