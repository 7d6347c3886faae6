import BankedRing.Residue.Arithmetic

/-! Multiplicative inverses by the extended Euclidean algorithm on signed words.
The coefficients stay between `-m` and `m`; zero stands for "no inverse". -/
namespace BankedRing.Residue

/-- A word read as a signed word. -/
def toSigned (x : Word) : Int := (x.toNat : Int).bmod UInt64.size

/-- Euclid's descent on `(remainder, coefficient)` pairs. It ends with the last
nonzero remainder and its coefficient; each division truncates toward zero. -/
def euclid (r r' s s' : Int) : Checked (Int × Int) :=
  if _ : r' = 0 then return (r, s) else
    let q := r.tdiv r'
    match Checked.signed q, Checked.signed (q * r'), Checked.signed (r - q * r'),
        Checked.signed (q * s'), Checked.signed (s - q * s') with
    | .ok _, .ok _, .ok _, .ok _, .ok _ => euclid r' (r - q * r') s' (s - q * s')
    | _, _, _, _, _ => throw .overflow
termination_by r'.natAbs
decreasing_by
  have : r - r.tdiv r' * r' = r.tmod r' := by rw [Int.tmod_def, Int.mul_comm]
  rw [this, Int.natAbs_tmod]
  exact Nat.mod_lt _ (by omega)

def inverse (a m : Word) : Checked Word :=
  if m < 2 then return 0 else do
    let a ← reduce a m
    if a = 0 then return 0
    let (divisor, coefficient) ← euclid (toSigned a) (toSigned m) 1 0
    if divisor ≠ 1 then return 0
    if coefficient < 0 then
      return UInt64.ofInt (← Checked.signed (coefficient + toSigned m))
    else
      return UInt64.ofInt coefficient

end BankedRing.Residue
