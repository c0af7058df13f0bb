import Stencil.Number.Binary64

/-!
# The shortest decimal of a number

A number is written with the fewest digits that read back as it, always positionally. The
multiples of a power of ten form a grid; the digits are found on the coarsest grid that
has a point among the decimals which read back as the number. Everything is counted in
units of `2 ^ (-1076) * 10 ^ (-324)`, in which all quantities are natural numbers.

## Main definitions

* `Interval` — the decimals that read back as a number.
* `Interval.onGrid` — the point of a grid that reads back, the nearer one if there are two.
* `Binary64.digits` — the digits and the power of ten of a number.
* `Binary64.text` — the written form.
-/

namespace Stencil

/-- A positive number between the ends of the range that reads back as it. The ends belong
to the range if `closed` is set. -/
structure Interval where
  low : Nat
  value : Nat
  high : Nat
  closed : Bool

namespace Interval

/-- Whether a decimal reads back as the number. -/
def contains (i : Interval) (point : Nat) : Bool :=
  if i.closed then i.low ≤ point && point ≤ i.high else i.low < point && point < i.high

/-- The multiple of `step` that reads back, as a count of steps. Of the multiples below and
above the number the nearer one is taken, and of two equally near the upper one. -/
def onGrid (i : Interval) (step : Nat) : Option Nat :=
  let below := i.value / step
  let rest := i.value % step
  match i.contains (below * step), i.contains ((below + 1) * step) with
  | true, true => some (if 2 * rest < step then below else below + 1)
  | true, false => some below
  | false, true => some (below + 1)
  | false, false => none

/-- The digits on the coarsest grid that has a point which reads back, among the powers of
ten up to `10 ^ (n - 324)`. -/
def coarsest (i : Interval) : Nat → Nat × Nat
  | 0 => ((i.onGrid (twoTo 1076)).getD 0, 0)
  | n + 1 =>
    match i.onGrid (tenTo (n + 1) * twoTo 1076) with
    | some count => (count, n + 1)
    | none => i.coarsest n

end Interval

namespace Binary64

/-- The decimals that read back as a finite number other than zero, its sign aside. The
neighbour below a power of two is only half as far away, unless it is subnormal. -/
def interval (x : Binary64) : Interval :=
  let unit := twoTo x.scale * tenTo 324
  let below := if x.fraction = 0 && 1 < x.exponent then 1 else 2
  { low := (4 * x.significand - below) * unit
    value := 4 * x.significand * unit
    high := (4 * x.significand + 2) * unit
    closed := x.significand % 2 = 0 }

/-- The digits of a finite number other than zero, as a natural number, and the power of
ten, counted from `10 ^ (-324)`, that they are to be multiplied with. -/
def digits (x : Binary64) : Nat × Nat :=
  x.interval.coarsest 633

/-- A natural number times a power of ten, counted from `10 ^ (-324)`, written without an
exponent. -/
def positional (digits power : Nat) : List Char :=
  let ds := Nat.toDigits 10 digits
  if 324 ≤ power then ds ++ List.replicate (power - 324) '0'
  else
    let places := 324 - power
    if ds.length ≤ places then
      ['0', '.'] ++ List.replicate (places - ds.length) '0' ++ ds
    else ds.take (ds.length - places) ++ '.' :: ds.drop (ds.length - places)

/-- The written form of a number without its sign. -/
def magnitudeText (x : Binary64) : List Char :=
  if x.isInfinite then ['i', 'n', 'f']
  else if x.isZero then ['0']
  else positional x.digits.1 x.digits.2

/-- The written form of a number. -/
def text (x : Binary64) : String :=
  if x.isNaN then "NaN"
  else String.ofList (if x.sign then '-' :: x.magnitudeText else x.magnitudeText)

end Binary64

end Stencil
