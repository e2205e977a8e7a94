import VersionSweep.Proofs.Language.Cutting

/-!
# String literals with an end

A string literal ends at the first quote of its kind that no backslash has taken.  The search for
that quote gives up at a line break and at the end of the text, and `closed_scan_iff` says that what
it passed over then is no literal with an end.
-/

namespace VersionSweep.Quoted

/-- The characters of a literal behind its opening quote: a backslash takes the next character with
it, no other character is the quote or breaks the line, and at the end stands the quote. -/
inductive Closes (quote : Char) : List Char → Prop where
  | quote : Closes quote [quote]
  | escaped {c : Char} {rest : List Char} (hrest : Closes quote rest) :
      Closes quote ('\\' :: c :: rest)
  | plain {c : Char} {rest : List Char} (hescape : c ≠ '\\') (hquote : c ≠ quote)
      (hbreak : ¬(c = '\n' ∨ c = '\r')) (hrest : Closes quote rest) : Closes quote (c :: rest)

def IsQuote (c : Char) : Prop :=
  c = '"' ∨ c = '\''

instance : DecidablePred IsQuote :=
  fun c ↦ inferInstanceAs (Decidable (c = '"' ∨ c = '\''))

theorem IsQuote.ne_backslash {c : Char} (h : IsQuote c) : c ≠ '\\' := by
  rcases h with rfl | rfl
  · decide
  · decide

theorem IsQuote.not_break {c : Char} (h : IsQuote c) : ¬(c = '\n' ∨ c = '\r') := by
  rcases h with rfl | rfl
  · decide
  · decide

def IsLiteral : List Char → Prop
  | [] => False
  | quote :: body => IsQuote quote ∧ Closes quote body

variable {quote : Char} {body : List Char}

/-- A literal is found up to its end, whatever comes behind it. -/
theorem Closes.scan_append (h : Closes quote body) (hquote : IsQuote quote) (rest : List Char) :
    scan quote (body ++ rest) = ⟨body, rest, true⟩ := by
  have hescape := hquote.ne_backslash
  have hbreak := hquote.not_break
  induction h with
  | quote => rw [List.singleton_append, scan_cons_of_ne _ hescape, if_neg hbreak, if_pos rfl]
  | escaped _ ih =>
    rw [List.cons_append, List.cons_append, scan, ih]
    rfl
  | plain hc hother hline _ ih =>
    rw [List.cons_append, scan_cons_of_ne _ hc, if_neg hline, if_neg hother, ih]
    rfl

theorem closes_of_closed {cs : List Char} (h : (scan quote cs).closed = true) :
    Closes quote (scan quote cs).body := by
  fun_induction scan quote cs with
  | case1 => cases h
  | case2 => cases h
  | case3 c cs ih => exact .escaped (ih h)
  | case4 => cases h
  | case5 => exact .quote
  | case6 c cs hc hc' hbreak hother ih => exact .plain (ne_backslash hc hc') hother hbreak (ih h)

theorem closed_scan_iff (hquote : IsQuote quote) (cs : List Char) :
    (scan quote cs).closed = true ↔ IsLiteral (quote :: (scan quote cs).body) := by
  refine ⟨fun h ↦ ⟨hquote, closes_of_closed h⟩, fun h ↦ ?_⟩
  have hscan := h.2.scan_append hquote (scan quote cs).rest
  rw [Quoted.scan_append] at hscan
  rw [hscan]

theorem isLiteral_cons_iff : IsLiteral (quote :: body) ↔
    IsQuote quote ∧ (scan quote body).closed = true ∧ (scan quote body).rest = [] := by
  constructor
  · rintro ⟨hquote, hbody⟩
    have hscan := hbody.scan_append hquote []
    rw [List.append_nil] at hscan
    rw [hscan]
    exact ⟨hquote, rfl, rfl⟩
  · rintro ⟨hquote, hclosed, hrest⟩
    have hbody := Quoted.scan_append quote body
    rw [hrest, List.append_nil] at hbody
    refine ⟨hquote, ?_⟩
    rw [← hbody]
    exact closes_of_closed hclosed

instance : DecidablePred IsLiteral
  | [] => inferInstanceAs (Decidable False)
  | _ :: _ => decidable_of_iff _ isLiteral_cons_iff.symm

end VersionSweep.Quoted
