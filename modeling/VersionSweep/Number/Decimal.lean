import VersionSweep.Number.Binary64
import VersionSweep.Text.Fold

/-!
# Reading of decimal numbers

A decimal number is an optional sign, digits with at most one point among or around them, and an
optional exponent.  The words for infinity and for no number are read in any case of their letters.
-/

namespace VersionSweep.Decimal

def digitsValue (acc : Nat) (digits : List Char) : Nat :=
  digits.foldl (fun value c ↦ 10 * value + (c.toNat - '0'.toNat)) acc

def spanDigits (cs : List Char) : List Char × List Char :=
  (cs.takeWhile Char.isDigit, cs.dropWhile Char.isDigit)

def splitSign : List Char → Bool × List Char
  | '-' :: rest => (true, rest)
  | '+' :: rest => (false, rest)
  | rest => (false, rest)

/-- An exponent up to the end of the text; no exponent counts as zero. -/
def exponent? : List Char → Option Int
  | [] => some 0
  | c :: rest =>
    if c = 'e' ∨ c = 'E' then
      let (negative, digits) := splitSign rest
      if digits.isEmpty || !digits.all Char.isDigit then none
      else
        let value : Int := digitsValue 0 digits
        some (if negative then -value else value)
    else none

def unsigned? (cs : List Char) : Option Binary64 :=
  let word := Text.foldCase (String.ofList cs)
  if word = "inf" ∨ word = "infinity" then some .infinity
  else if word = "nan" then some .notANumber
  else
    let (whole, rest) := spanDigits cs
    let (fraction, rest) :=
      match rest with
      | '.' :: tail => spanDigits tail
      | rest => ([], rest)
    if whole.isEmpty && fraction.isEmpty then none
    else
      (exponent? rest).map fun shift ↦
        Binary64.ofDecimal (digitsValue (digitsValue 0 whole) fraction) (shift - fraction.length)

def read? (cs : List Char) : Option Binary64 :=
  let (negative, rest) := splitSign cs
  (unsigned? rest).map fun x ↦ if negative then x.negate else x

end VersionSweep.Decimal
