import BankedRing.Word.Double

/-! Admission of moduli. Barrett multiplication needs four spare bits in a word, so
a modulus has at most 60 bits; among those the single power of two with 60 bits is
refused, because its Barrett constant is the word radix itself. -/
namespace BankedRing.Modulus

def maximumBits : Nat := 60

def isSupported (m : Word) : Bool :=
  2 ≤ m && bitLength m ≤ maximumBits && !(isPowerOfTwo m.toNat && bitLength m = maximumBits)

/-- The constant `⌊2 ^ (2 k + 3) / m⌋` of a modulus with `k` bits, zero for zero.
A power of two takes a shift in place of the long division. -/
def barrettConstant (m : Word) : Checked Word :=
  if m = 0 then return 0 else do
    let numerator ← DoubleWord.powerOfTwo (2 * bitLength m + 3)
    if isPowerOfTwo m.toNat then
      return numerator.shiftRight (bitLength m - 1)
    else
      return (numerator.divide m).1.lo

end BankedRing.Modulus
