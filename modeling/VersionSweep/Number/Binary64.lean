/-!
# Binary floating-point numbers

A double-precision number is kept as its sixty-four bits.  `nearestBits` finds the number closest to
a quotient of natural numbers; of two equally close ones it takes the one with an even significand.
A quotient past the greatest finite number becomes infinity.
-/

namespace VersionSweep

/-- A double-precision number by its bits: sign, eleven exponent bits, fifty-two fraction bits. -/
structure Binary64 where
  bits : UInt64
  deriving DecidableEq, Repr

namespace Binary64

/-- The bits of infinity: all exponent bits set, no fraction. -/
def infinityBits : Nat := 0x7FF0000000000000

def infinity : Binary64 := ⟨infinityBits.toUInt64⟩

def notANumber : Binary64 := ⟨0x7FF8000000000000⟩

/-- Whether the bits stand for no number: all exponent bits set and a fraction. -/
def isNaN (x : Binary64) : Bool :=
  infinityBits < x.bits.toNat % 0x8000000000000000

def negate (x : Binary64) : Binary64 :=
  ⟨x.bits ^^^ 0x8000000000000000⟩

/-- A quotient rounded to the nearest whole number, a half going to the even neighbour. -/
def roundHalfEven (num den : Nat) : Nat :=
  let floor := num / den
  let rest := 2 * (num % den)
  if rest < den then floor
  else if rest > den then floor + 1
  else floor + floor % 2

/-- The greatest `e` with `2 ^ e ≤ num / den`, for a positive quotient. -/
def binaryExponent (num den : Nat) : Int :=
  let guess : Int := (Nat.log2 num : Int) - (Nat.log2 den : Int)
  let reached :=
    if guess ≥ 0 then den <<< guess.toNat ≤ num else den ≤ num <<< (-guess).toNat
  if reached then guess else guess - 1

/-- The bits of the number nearest to a quotient of two positive numbers.

The last place of the significand is worth `2 ^ place`; it never is below `2 ^ (-1074)`, so the
smallest numbers lose leading digits instead.  Since the leading digit of a full significand and the
lowest exponent bit are worth the same, a carry out of the rounding needs no case of its own. -/
def nearestBits (num den : Nat) : Nat :=
  let place := max (binaryExponent num den - 52) (-1074)
  let significand :=
    if place ≥ 0 then roundHalfEven num (den <<< place.toNat)
    else roundHalfEven (num <<< (-place).toNat) den
  min infinityBits ((place + 1074).toNat <<< 52 + significand)

/-- The number nearest to `digits * 10 ^ exponent`.

A value of `10 ^ 310` or more is past every finite number, and one below `10 ^ (-330)` is nearer to
zero than to any other number, so no power of ten beyond those has to be built. -/
def ofDecimal (digits : Nat) (exponent : Int) : Binary64 :=
  if digits = 0 then ⟨0⟩
  else
    let magnitude : Int := (Nat.toDigits 10 digits).length + exponent
    if magnitude > 310 then infinity
    else if magnitude < -330 then ⟨0⟩
    else if exponent ≥ 0 then ⟨(nearestBits (digits * Nat.pow 10 exponent.toNat) 1).toUInt64⟩
    else ⟨(nearestBits digits (Nat.pow 10 (-exponent).toNat)).toUInt64⟩

end Binary64

end VersionSweep
