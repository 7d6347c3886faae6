import BankedRing.Error
import BankedRing.Residue.Inverse

/-! Twiddle tables of the negacyclic transform of one length under one modulus. Slot
`i` holds the root's power with the bit-reversed exponent `i`, so that the children of
node `k` in the butterfly tree are the nodes `2 k` and `2 k + 1`. -/
namespace BankedRing

/-- Reverses the low `bits` bits; higher bits are dropped. -/
def bitReverse (x : Nat) : (bits : Nat) → Nat
  | 0 => 0
  | bits + 1 => (x % 2) * (1 <<< bits) + bitReverse (x / 2) bits

/-- A fixed factor with its Shoup companion. -/
structure Twiddle where
  factor : Word
  companion : Word
  deriving DecidableEq

namespace Twiddle

def ofFactor (factor modulus : Word) : Twiddle := ⟨factor, Residue.companion factor modulus⟩

def scale (t : Twiddle) (modulus x : Word) : Checked Word :=
  Residue.mulFixed x t.factor modulus t.companion

end Twiddle

structure RootTables where
  modulus : Word
  root : Word
  forward : Array Twiddle
  inverse : Array Twiddle
  lengthInverse : Twiddle
  deriving DecidableEq

namespace RootTables

def length (tables : RootTables) : Nat := tables.forward.size

/-- The powers of `root` in bit-reversed order of their exponents. -/
def powers (root : Word) (length : Nat) (modulus : Word) : Checked (Array Twiddle) := do
  let table ← (List.range length).mapM fun i => do
    let power ← Residue.pow root (UInt64.ofNat (bitReverse i length.log2)) modulus
    return Twiddle.ofFactor power modulus
  return table.toArray

/-- A refused root is reported with the order that it would need. -/
def refuseRoot (root : Word) (length : Nat) (modulus : Word) : Except Error PUnit := do
  let order ← Checked.mul 2 (UInt64.ofNat length)
  throw (.invalidParameters (.notPrimitiveRoot root order.toNat modulus))

/-- Tables for a power-of-two length and a root whose power by the length is `-1`. -/
def ofRoot (root : Word) (length : Nat) (modulus : Word) : Except Error RootTables := do
  if !Modulus.isSupported modulus then
    throw (.invalidModulus modulus)
  if length < 2 ∨ !isPowerOfTwo length then
    throw (.invalidParameters (.transformLength length))
  if root = 0 ∨ modulus ≤ root then
    refuseRoot root length modulus
  if (← Residue.pow root (UInt64.ofNat length) modulus) ≠ modulus - 1 then
    refuseRoot root length modulus
  let rootInverse ← Residue.inverse root modulus
  Checked.buffer (8 * length)
  let lengthInverse ← Residue.inverse (UInt64.ofNat length) modulus
  return {
    modulus, root
    forward := ← powers root length modulus
    inverse := ← powers rootInverse length modulus
    lengthInverse := Twiddle.ofFactor lengthInverse modulus }

end RootTables
end BankedRing
