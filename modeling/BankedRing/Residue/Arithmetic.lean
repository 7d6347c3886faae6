import BankedRing.Residue.Modulus

/-! Arithmetic of residues kept in one word. The operations on reduced operands
trust their callers for `a, b < m` and follow the same bit-level rule when that
promise is broken: sums and differences stop at a word's edge, the estimates of
Barrett and Shoup multiplication wrap. -/
namespace BankedRing.Residue

@[inline] def reduce (x m : Word) : Checked Word :=
  if m ≤ x then Checked.rem x m else return x

/-- One subtraction, for what is below twice the modulus. -/
@[inline] def subtractOnce (x m : Word) : Checked Word :=
  if m ≤ x then Checked.sub x m else return x

@[inline] def addReduced (a b m : Word) : Checked Word := do
  subtractOnce (← Checked.add a b) m

@[inline] def subReduced (a b m : Word) : Checked Word :=
  if a < b then do Checked.sub (← Checked.add a m) b else Checked.sub a b

def add (a b m : Word) : Checked Word := do
  addReduced (← reduce a m) (← reduce b m) m

def sub (a b m : Word) : Checked Word := do
  subReduced (← reduce a m) (← reduce b m) m

/-- Barrett's estimate of `⌊x / m⌋`, never more than one too small below `m²`. -/
def barrettQuotient (x : DoubleWord) (m mu : Word) : Checked Word := do
  if bitLength m < 2 then throw .overflow
  let shift := bitLength m - 2
  let estimate ← DoubleWord.product (x.shiftRight shift) mu
  return estimate.shiftRight (shift + 7)

/-- Barrett reduction with one conditional subtraction. Below `m²` the difference
stays below `2 m`, so its low word is all of it. -/
def barrettReduce (x : DoubleWord) (m mu : Word) : Checked Word := do
  let quotient ← barrettQuotient x m mu
  subtractOnce (x.lo - quotient * m) m

def mulReduced (a b m mu : Word) : Checked Word := do
  barrettReduce (← DoubleWord.product a b) m mu

def mul (a b m : Word) : Checked Word := do
  let mu ← Modulus.barrettConstant m
  mulReduced (← reduce a m) (← reduce b m) m mu

/-- Shoup's companion `⌊w 2 ^ 64 / m⌋` of a fixed factor `w < m`. -/
def companion (w m : Word) : Word := (DoubleWord.divide ⟨w, 0⟩ m).1.lo

/-- Product with a fixed factor. Both inner products wrap, and their difference is
the remainder or the remainder plus `m`. -/
def mulFixed (a w m companion : Word) : Checked Word := do
  let quotient ← DoubleWord.productHigh a companion
  subtractOnce (a * w - quotient * m) m

/-- Square and multiply over the `remaining` low bits of the exponent, from the top. -/
def powFrom (base exponent m mu : Word) : (remaining : Nat) → (power : Word) → Checked Word
  | 0, power => return power
  | position + 1, power => do
    let square ← mulReduced power power m mu
    if (← Checked.shiftRight exponent position) &&& 1 = 1 then
      powFrom base exponent m mu position (← mulReduced square base m mu)
    else
      powFrom base exponent m mu position square

def pow (b e m : Word) : Checked Word := do
  let mu ← Modulus.barrettConstant m
  let base ← reduce b m
  powFrom base e m mu (bitLength e) (← reduce 1 m)

end BankedRing.Residue
