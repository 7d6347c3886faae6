import BankedRing.Word.Checked

/-! Double words: unsigned 128-bit values kept as two words, for units without a
native double-width product. Products are assembled from four partial products of
half words, quotients by restoring long division. `toNat` is the value that every
operation is measured against. -/
namespace BankedRing

structure DoubleWord where
  hi : Word
  lo : Word
  deriving DecidableEq, Repr

namespace DoubleWord

def toNat (x : DoubleWord) : Nat := x.hi.toNat * UInt64.size + x.lo.toNat

def zero : DoubleWord := ⟨0, 0⟩

@[inline] def ofWord (lo : Word) : DoubleWord := ⟨0, lo⟩

def isZero (x : DoubleWord) : Bool := x.hi = 0 && x.lo = 0

/-- The exponent of a representable power stays below 128. -/
def powerOfTwo (exponent : Nat) : Checked DoubleWord :=
  if 64 ≤ exponent then do
    return ⟨← Checked.shiftLeft 1 (exponent - 64), 0⟩
  else
    return ⟨0, ← Checked.shiftLeft 1 exponent⟩

@[inline] def lowHalf (x : Word) : Word := x &&& 0xFFFFFFFF

@[inline] def highHalf (x : Word) : Word := x >>> 32

/-- The exact product. The middle column adds three half words, so no column and
no carry leaves a word. -/
def product (a b : Word) : Checked DoubleWord := do
  let low ← Checked.mul (lowHalf a) (lowHalf b)
  let cross ← Checked.mul (lowHalf a) (highHalf b)
  let cross' ← Checked.mul (highHalf a) (lowHalf b)
  let high ← Checked.mul (highHalf a) (highHalf b)
  let middle ← Checked.add (← Checked.add (highHalf low) (lowHalf cross)) (lowHalf cross')
  let hi ← Checked.add (← Checked.add (← Checked.add high (highHalf cross)) (highHalf cross'))
    (highHalf middle)
  return ⟨hi, lowHalf low ||| (middle <<< 32)⟩

def productHigh (a b : Word) : Checked Word := do
  return (← product a b).hi

/-- The low word of the value shifted right; every shift amount is admitted. -/
def shiftRight (x : DoubleWord) (amount : Nat) : Word :=
  if amount = 0 then x.lo
  else if amount < 64 then (x.lo >>> amount.toUInt64) ||| (x.hi <<< (64 - amount).toUInt64)
  else if amount < 128 then x.hi >>> (amount - 64).toUInt64
  else 0

/-- Difference modulo the double radix. -/
def sub (a b : DoubleWord) : DoubleWord :=
  ⟨a.hi - b.hi - (if a.lo < b.lo then 1 else 0), a.lo - b.lo⟩

/-- Sum modulo the double radix. -/
def add (a b : DoubleWord) : DoubleWord :=
  let lo := a.lo + b.lo
  ⟨a.hi + b.hi + (if lo < a.lo then 1 else 0), lo⟩

/-- The bit at a position below 128. -/
@[inline] def bit (x : DoubleWord) (position : Nat) : Word :=
  if 64 ≤ position then (x.hi >>> (position - 64).toUInt64) &&& 1
  else (x.lo >>> position.toUInt64) &&& 1

/-- Restoring division of the `remaining` low bits of `x`. The bit shifted out of
the remainder counts as a restore, since the remainder then exceeds any divisor. -/
def restore (x : DoubleWord) (divisor : Word) : (remaining : Nat) → (hi lo remainder : Word) →
    DoubleWord × Word
  | 0, hi, lo, remainder => (⟨hi, lo⟩, remainder)
  | position + 1, hi, lo, remainder =>
    let shifted := x.bit position ||| (remainder <<< 1)
    if remainder >>> 63 = 1 ∨ divisor ≤ shifted then
      if 64 ≤ position then
        restore x divisor position (hi ||| (1 <<< (position - 64).toUInt64)) lo (shifted - divisor)
      else
        restore x divisor position hi (lo ||| (1 <<< position.toUInt64)) (shifted - divisor)
    else
      restore x divisor position hi lo shifted

def divideByBits (x : DoubleWord) (divisor : Word) : DoubleWord × Word :=
  restore x divisor 128 0 0 0

def divideByWord (x : DoubleWord) (divisor : Word) : DoubleWord × Word :=
  (ofWord (x.lo / divisor), x.lo % divisor)

/-- Quotient and remainder. A zero divisor leaves a quotient of ones and the low
word as the remainder. -/
def divide (x : DoubleWord) (divisor : Word) : DoubleWord × Word :=
  if x.hi = 0 ∧ divisor ≠ 0 then divideByWord x divisor else divideByBits x divisor

end DoubleWord
end BankedRing
