import BankedRing.Error
import BankedRing.Prime.Test
import BankedRing.Residue.Arithmetic

/-! Prime search along the progression `1 (mod order)`, downward, and roots of unity
of a power-of-two order modulo a prime. -/
namespace BankedRing.Prime

/-- The first prime met on the way down from `candidate` in steps of `order`. -/
def descend (order candidate : Word) : Checked (Option Word) :=
  if candidate ≤ 1 then return none else do
    if ← isPrime candidate then return some candidate
    else if _ : 0 < order ∧ order ≤ candidate then descend order (candidate - order)
    else return none
termination_by candidate.toNat
decreasing_by
  rename_i inside
  have positive : 0 < order.toNat := UInt64.lt_iff_toNat_lt.mp inside.1
  rw [UInt64.toNat_sub_of_le _ _ inside.2]
  exact Nat.sub_lt (Nat.lt_of_lt_of_le positive (UInt64.le_iff_toNat_le.mp inside.2)) positive

/-- The largest prime below `q` in its progression. -/
def previous (q order : Word) : Except Error Word := do
  let found ← if 0 < order ∧ order ≤ q then descend order (q - order) else pure none
  match found with
  | some p => return p
  | none => throw (.invalidParameters (.progressionExhausted order.toNat q.toNat))

/-- The largest prime below `2 ^ bits` that is 1 modulo `order`. -/
def first (bits : Nat) (order : Word) : Except Error Word := do
  if bits < 2 ∨ 60 < bits ∨ order = 0 then
    throw (.invalidParameters (.searchBounds bits order.toNat))
  let bound ← Checked.shiftLeft 1 bits
  let steps ← Checked.div (← Checked.sub bound 1) order
  let candidate ← Checked.add (← Checked.mul steps order) 1
  if candidate < bound then start candidate
  else if order ≤ candidate then start (candidate - order)
  else throw (.invalidParameters (.noCandidates order.toNat bits))
where
  start (q : Word) : Except Error Word := do
    if ← isPrime q then return q else previous q order

/-- Tries the generators `g, g + 1, …` in turn. A power of a generator is primitive
exactly when half the order takes it to `-1`. -/
def searchRoot (order cofactor modulus : Word) : (remaining : Nat) → (g : Word) →
    Checked (Option Word)
  | 0, _ => return none
  | remaining + 1, g => do
    let root ← Residue.pow g cofactor modulus
    if (← Residue.pow root (order / 2) modulus) = modulus - 1 then return some root
    searchRoot order cofactor modulus remaining (g + 1)

/-- A primitive root of unity of a power-of-two order dividing `modulus - 1`, from the
least generator below `2 ^ 16` that yields one. -/
def rootOfUnity (order modulus : Word) : Except Error Word := do
  if order < 2 ∨ !isPowerOfTwo order.toNat ∨ modulus < 3 ∨ (modulus - 1) % order ≠ 0 then
    throw (.invalidParameters (.orderMismatch order.toNat modulus.toNat))
  let generators := min modulus.toNat 65536 - 2
  match ← searchRoot order ((modulus - 1) / order) modulus generators 2 with
  | some root => return root
  | none => throw (.invalidParameters (.noPrimitiveRoot order.toNat modulus.toNat))

end BankedRing.Prime
