import BankedRing.Prime.Search
import BankedRing.Transform.Tables

/-! Parameters of a ring of polynomials: its dimension, a chain of distinct primes and
the twiddle tables of every prime. -/
namespace BankedRing

structure RingParameters where
  ringDimension : Nat
  moduli : List Word
  tables : List RootTables
  deriving DecidableEq

namespace RingParameters

/-- The product of all moduli. -/
def composite (parameters : RingParameters) : Nat :=
  parameters.moduli.foldl (fun product q => product * q.toNat) 1

/-- The order of the roots: twice the dimension. -/
def rootOrder (ringDimension : Nat) : Checked Word := Checked.mul 2 (UInt64.ofNat ringDimension)

/-- The tables of one prime, for transforms of length `ringDimension`. -/
def tablesOf (ringDimension : Nat) (order q : Word) : Except Error RootTables := do
  let root ← Prime.rootOfUnity order q
  RootTables.ofRoot root ringDimension q

/-- Each modulus is a supported prime that none before it repeats. -/
def buildTables (ringDimension : Nat) (order : Word) :
    (earlier moduli : List Word) → Except Error (List RootTables)
  | _, [] => return []
  | earlier, q :: rest => do
    if !Modulus.isSupported q then throw (.invalidModulus q)
    if !(← Prime.isPrime q) then throw (.invalidModulus q)
    if q ∈ earlier then throw (.invalidParameters (.repeatedModulus q))
    let tables ← tablesOf ringDimension order q
    return tables :: (← buildTables ringDimension order (q :: earlier) rest)

def ofModuli (ringDimension : Nat) (moduli : List Word) : Except Error RingParameters := do
  if moduli = [] then throw (.invalidParameters .noModuli)
  let order ← rootOrder ringDimension
  return ⟨ringDimension, moduli, ← buildTables ringDimension order [] moduli⟩

/-- Further primes below `q` in the same progression. -/
def descending (order : Word) : (count : Nat) → (q : Word) → Except Error (List Word)
  | 0, _ => return []
  | count + 1, q => do
    let next ← Prime.previous q order
    return next :: (← descending order count next)

/-- The largest primes of a size that are 1 modulo twice the dimension. -/
def generate (ringDimension towers bits : Nat) : Except Error RingParameters := do
  let order ← rootOrder ringDimension
  Checked.buffer (8 * towers)
  let largest ← Prime.first bits order
  let primes ← match towers with
    | 0 => pure []
    | more + 1 => do pure (largest :: (← descending order more largest))
  ofModuli ringDimension primes

end RingParameters
end BankedRing
