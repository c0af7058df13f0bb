/-!
# Binary floating point

Numbers in the 64-bit binary format, given by their bits: a sign, eleven bits of exponent
and 52 bits of fraction. All arithmetic on them is exact arithmetic on natural numbers.

## Main definitions

* `Binary64` — the bits of a number, with `isNaN`, `isZero`, `sign`, `significand`.
* `Binary64.same` — equality of numbers: not-a-number equals nothing, the zeros are equal.
* `Binary64.ofNat` — the nearest number to a natural number, ties to even.
* `Binary64.ofBinary32` — the number that a 32-bit pattern stands for.
-/

namespace Stencil

/-- The powers of two. -/
abbrev twoTo (n : Nat) : Nat := Nat.pow 2 n

/-- The powers of ten. -/
abbrev tenTo (n : Nat) : Nat := Nat.pow 10 n

/-- A number in the 64-bit binary format. -/
structure Binary64 where
  bits : UInt64
  deriving DecidableEq

namespace Binary64

/-- Whether the sign bit is set. -/
def sign (x : Binary64) : Bool := twoTo 63 ≤ x.bits.toNat

/-- The bits of the exponent. -/
def exponent (x : Binary64) : Nat := x.bits.toNat / twoTo 52 % twoTo 11

/-- The bits of the fraction. -/
def fraction (x : Binary64) : Nat := x.bits.toNat % twoTo 52

/-- Whether the bits stand for no number. -/
def isNaN (x : Binary64) : Bool := x.exponent = 2047 && x.fraction ≠ 0

/-- Whether the bits stand for an infinity. -/
def isInfinite (x : Binary64) : Bool := x.exponent = 2047 && x.fraction = 0

/-- Whether the bits stand for one of the two zeros. -/
def isZero (x : Binary64) : Bool := x.exponent = 0 && x.fraction = 0

/-- Equality of numbers. -/
def same (x y : Binary64) : Bool :=
  !x.isNaN && !y.isNaN && (x = y || (x.isZero && y.isZero))

/-- The significand of a finite number, a count of units of `2 ^ (scale - 1074)`. -/
def significand (x : Binary64) : Nat :=
  if x.exponent = 0 then x.fraction else twoTo 52 + x.fraction

/-- The power of two by which the unit of the significand exceeds the least number. -/
def scale (x : Binary64) : Nat := x.exponent - 1

/-- The number with the given parts. A fraction of `2 ^ 52` carries into the exponent. -/
def ofParts (sign : Bool) (exponent fraction : Nat) : Binary64 :=
  ⟨UInt64.ofNat ((if sign then twoTo 63 else 0) + exponent * twoTo 52 + fraction)⟩

/-- The nearest number to `n`, for `n < 2 ^ 1023`; of two that are equally near, the one
with an even significand. -/
def ofNat (n : Nat) : Binary64 :=
  if n = 0 then ofParts false 0 0
  else
    let top := n.log2
    if top ≤ 52 then ofParts false (top + 1023) (n * twoTo (52 - top) - twoTo 52)
    else
      let unit := twoTo (top - 52)
      let quotient := n / unit
      let rest := n % unit
      let up := unit < 2 * rest || (unit = 2 * rest && quotient % 2 = 1)
      ofParts false (top + 1023) ((if up then quotient + 1 else quotient) - twoTo 52)

/-- The number that a pattern of the 32-bit binary format stands for: a sign, eight bits of
exponent and 23 bits of fraction. -/
def ofBinary32 (pattern : UInt32) : Binary64 :=
  let sign := decide (twoTo 31 ≤ pattern.toNat)
  let exponent := pattern.toNat / twoTo 23 % twoTo 8
  let fraction := pattern.toNat % twoTo 23
  if exponent = 255 then ofParts sign 2047 (fraction * twoTo 29)
  else if exponent = 0 then
    if fraction = 0 then ofParts sign 0 0
    else
      let top := fraction.log2
      ofParts sign (top + 874) (fraction * twoTo (52 - top) - twoTo 52)
  else ofParts sign (exponent + 896) (fraction * twoTo 29)

end Binary64

end Stencil
