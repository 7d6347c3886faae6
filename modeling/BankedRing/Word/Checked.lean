/-! Machine words and the arithmetic that stops instead of wrapping. A checked
step either returns the exact natural-number result or names the trap that ended
the computation; the plain operators of `Word` remain the arithmetic modulo the
word radix. Shift amounts are natural numbers, so a shift by the word width or
more is a trap and never a masked shift. -/
namespace BankedRing

abbrev Word := UInt64

/-- Why a checked step has no result. -/
inductive Trap where
  | overflow
  | divisionByZero
  | wideShift
  | outOfRange
  | oversized
  deriving DecidableEq, Repr

def Trap.message : Trap → String
  | .overflow => "a result does not fit its word"
  | .divisionByZero => "a divisor is zero"
  | .wideShift => "a shift amount reaches the word width"
  | .outOfRange => "an index lies outside its list"
  | .oversized => "a buffer exceeds the address space"

abbrev Checked := Except Trap

/-- A trap ends every computation whose failures include traps. -/
class HasTrap (ε : Type) where
  ofTrap : Trap → ε

instance : HasTrap Trap := ⟨id⟩

instance {ε : Type} [HasTrap ε] : MonadLift Checked (Except ε) where
  monadLift
    | .ok value => .ok value
    | .error trap => .error (HasTrap.ofTrap trap)

instance {ε σ : Type} [HasTrap ε] : MonadLift Checked (EStateM ε σ) where
  monadLift
    | .ok value => pure value
    | .error trap => throw (HasTrap.ofTrap trap)

/-- An outcome without state is a step that keeps the state. -/
instance liftOutcome {ε σ : Type} : MonadLift (Except ε) (EStateM ε σ) where
  monadLift
    | .ok value => pure value
    | .error e => throw e

namespace Checked

@[inline] def add (a b : Word) : Checked Word :=
  let sum := a + b
  if sum < a then .error .overflow else .ok sum

@[inline] def sub (a b : Word) : Checked Word :=
  if a < b then .error .overflow else .ok (a - b)

@[inline] def mul (a b : Word) : Checked Word :=
  if b = 0 ∨ a ≤ 18446744073709551615 / b then .ok (a * b) else .error .overflow

@[inline] def div (a b : Word) : Checked Word :=
  if b = 0 then .error .divisionByZero else .ok (a / b)

@[inline] def rem (a b : Word) : Checked Word :=
  if b = 0 then .error .divisionByZero else .ok (a % b)

@[inline] def shiftLeft (a : Word) (amount : Nat) : Checked Word :=
  if amount < 64 then .ok (a <<< amount.toUInt64) else .error .wideShift

@[inline] def shiftRight (a : Word) (amount : Nat) : Checked Word :=
  if amount < 64 then .ok (a >>> amount.toUInt64) else .error .wideShift

/-- Signed arithmetic keeps every value in the range of a signed word. -/
def signed (value : Int) : Checked Int :=
  if -9223372036854775808 ≤ value ∧ value ≤ 9223372036854775807 then .ok value else .error .overflow

/-- The element at a position that the caller has to keep inside the list. -/
def element {α : Type} (values : List α) (index : Nat) : Checked α :=
  match values[index]? with
  | some value => .ok value
  | none => .error .outOfRange

/-- A buffer takes less than half of the host's address space. -/
def buffer (bytes : Nat) : Checked Unit :=
  if bytes < 9223372036854775808 then .ok () else .error .oversized

theorem buffer_eq_ok {bytes : Nat} (h : bytes < 9223372036854775808) : buffer bytes = .ok () :=
  if_pos h

theorem buffer_eq_ok_iff {bytes : Nat} : buffer bytes = .ok () ↔ bytes < 9223372036854775808 := by
  refine ⟨fun h => ?_, buffer_eq_ok⟩
  unfold buffer at h
  split at h
  · assumption
  · cases h

theorem add_eq_ok {a b : Word} (h : a.toNat + b.toNat < UInt64.size) : add a b = .ok (a + b) := by
  have exact : (a + b).toNat = a.toNat + b.toNat := by
    rw [UInt64.toNat_add, Nat.mod_eq_of_lt h]
  have : ¬ a + b < a := by rw [UInt64.lt_iff_toNat_lt]; omega
  simp [add, this]

theorem sub_eq_ok {a b : Word} (h : b.toNat ≤ a.toNat) : sub a b = .ok (a - b) := by
  have : ¬ a < b := by rw [UInt64.lt_iff_toNat_lt]; omega
  simp [sub, this]

theorem mul_eq_ok {a b : Word} (h : a.toNat * b.toNat < UInt64.size) : mul a b = .ok (a * b) := by
  have : b = 0 ∨ a ≤ 18446744073709551615 / b := by
    by_cases hb : b = 0
    · exact .inl hb
    · refine .inr ?_
      have positive : 0 < b.toNat := by
        rcases Nat.eq_zero_or_pos b.toNat with h0 | h0
        · exact absurd (UInt64.toNat_inj.mp (by simpa using h0)) hb
        · exact h0
      rw [UInt64.le_iff_toNat_le, UInt64.toNat_div]
      exact (Nat.le_div_iff_mul_le positive).mpr (by simpa using Nat.le_of_lt_succ h)
  simp only [mul, if_pos this]

theorem shiftLeft_eq_ok {amount : Nat} (h : amount < 64) (a : Word) :
    shiftLeft a amount = .ok (a <<< amount.toUInt64) :=
  if_pos h

theorem shiftRight_eq_ok {amount : Nat} (h : amount < 64) (a : Word) :
    shiftRight a amount = .ok (a >>> amount.toUInt64) :=
  if_pos h

end Checked

/-- Number of significant bits, none for zero. -/
def bitLength (x : Word) : Nat :=
  if x = 0 then 0 else x.toNat.log2 + 1

def isPowerOfTwo (n : Nat) : Bool :=
  n = 1 <<< n.log2

end BankedRing
