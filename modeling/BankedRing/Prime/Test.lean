import BankedRing.Word.Checked

/-! Deterministic Miller–Rabin on words. The first twelve primes serve as divisors and as
bases; as bases they decide every number below the word radix. Products are taken in double
width and reduced at once. -/
namespace BankedRing.Prime

def bases : List Word := [2, 3, 5, 7, 11, 13, 17, 19, 23, 29, 31, 37]

/-- The product of two words modulo a third, taken in double width. -/
def mulMod (a b n : Word) : Checked Word :=
  if n = 0 then throw .divisionByZero else
    let product := a.toBitVec.setWidth 128 * b.toBitVec.setWidth 128
    return ⟨(product % n.toBitVec.setWidth 128).setWidth 64⟩

/-- Square and multiply over the bits of the exponent, from the lowest. -/
def powLoop (n power base exponent : Word) : Checked Word :=
  if _ : exponent = 0 then return power else do
    let next ← if exponent &&& 1 = 1 then mulMod power base n else pure power
    powLoop n next (← mulMod base base n) (exponent >>> 1)
termination_by exponent.toNat
decreasing_by
  rename_i nonzero _
  have nonzero : exponent.toNat ≠ 0 := fun zero => nonzero (UInt64.toNat_inj.mp zero)
  rw [UInt64.toNat_shiftRight, UInt64.toNat_one, Nat.shiftRight_eq_div_pow]
  exact Nat.div_lt_self (Nat.pos_of_ne_zero nonzero) (by decide)

/-- `base ^ exponent` modulo `n`. -/
def powMod (base exponent n : Word) : Checked Word := do
  let one ← Checked.rem 1 n
  powLoop n one (← Checked.rem base n) exponent

/-- How often two divides a positive number. -/
def twos (n : Nat) : Nat :=
  if n ≠ 0 ∧ n % 2 = 0 then twos (n / 2) + 1 else 0
termination_by n

/-- The zero bits below the lowest one; all bits of zero. -/
def trailingZeros (x : Word) : Nat := if x = 0 then 64 else twos x.toNat

/-- Whether one of the next squares of `x` is `last`. -/
def squaresReach (n last : Word) : (squarings : Nat) → (x : Word) → Checked Bool
  | 0, _ => return false
  | squarings + 1, x => do
    let square ← mulMod x x n
    if square = last then return true else squaresReach n last squarings square

/-- The strong probable prime test of `n` to one base, for `last = n - 1 = 2 ^ s * odd`. -/
def passes (n last odd : Word) (s : Nat) (base : Word) : Checked Bool := do
  let x ← powMod base odd n
  if x = 1 ∨ x = last then return true else squaresReach n last (s - 1) x

def isPrime (n : Word) : Checked Bool :=
  if n < 2 then return false
  else match bases.find? fun p => n % p = 0 with
    | some p => return n = p
    | none => do
      let last ← Checked.sub n 1
      let s := trailingZeros last
      let odd ← Checked.shiftRight last s
      bases.allM (passes n last odd s)

end BankedRing.Prime
