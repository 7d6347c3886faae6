import BankedRing.Residue.Inverse

/-! Operations on centred lifts. A residue above half its modulus stands for the
negative number `x - m`; parity, modulus switching and rounding quotients act on
that number and encode the outcome again. -/
namespace BankedRing.Residue

/-- `⌊(2 d p + q) / (2 q)⌋` cut to a word: the quotient rounded with ties upward. -/
def scaleRounded (d p q : Word) : Checked Word := do
  let numerator := (← DoubleWord.product d p).add (DoubleWord.ofWord (q >>> 1))
  return (numerator.divide q).1.lo

/-- The quotient rounded with ties upward. -/
def divideRounded (d q : Word) : Checked Word := do
  let quotient ← Checked.div d q
  let remainder ← Checked.rem d q
  if (← Checked.sub q (q >>> 1)) ≤ remainder then Checked.add quotient 1 else return quotient

/-- Applies `f` to the magnitude of the centred lift and restores the sign. -/
@[inline] def onCentredLift (m v : Word) (f : Word → Checked Word) : Checked Word := do
  if m >>> 1 < v then
    let r ← reduce (← f (← Checked.sub m v)) m
    if r = 0 then return 0 else Checked.sub m r
  else
    reduce (← f v) m

/-- Parity of the centred lift: above half the modulus the low bit flips. -/
def parity (m x : Word) : Word :=
  (x ^^^ (if m >>> 1 < x then 1 else 0)) &&& 1

/-- The residue of the centred lift under another modulus. -/
def switchModulus (old new v : Word) : Checked Word := do
  if old < new then
    if old >>> 1 < v then Checked.add v (← Checked.sub new old) else return v
  else
    let shifted ←
      if old >>> 1 < v then do
        Checked.add v (← Checked.sub new (← Checked.rem old new))
      else pure v
    reduce shifted new

end BankedRing.Residue
