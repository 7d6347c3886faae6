import Mathlib.FieldTheory.Finite.Basic
import Mathlib.Tactic.IntervalCases
import Mathlib.Tactic.NormNum.Prime

/-! Strong probable primes. A prime is one to every base that it does not divide, by Fermat's
theorem and because a field has no square roots of one but one and minus one; a number that shares
a factor with a base is none to that base. -/
namespace BankedRing.Prime

/-- With `n - 1 = 2 ^ s * d` for an odd `d`, the power of the base by `d` is one, or it is minus one
after fewer than `s` squarings. -/
def IsStrongProbablePrime (n base : ℕ) : Prop :=
  ∃ s d, n - 1 = 2 ^ s * d ∧ d % 2 = 1 ∧
    (base ^ d ≡ 1 [MOD n] ∨ ∃ r < s, base ^ (2 ^ r * d) ≡ n - 1 [MOD n])

/-- A composite number that the first twelve primes, those up to 37, do not tell from a prime. -/
structure IsStrongPseudoprime (n : ℕ) : Prop where
  two_le : 2 ≤ n
  composite : ¬ n.Prime
  strong : ∀ p, p.Prime → p ≤ 37 → IsStrongProbablePrime n p

/-- A number has one power of two and one odd factor. -/
theorem two_pow_mul_injective {s t d e : ℕ} (oddD : d % 2 = 1) (oddE : e % 2 = 1)
    (same : 2 ^ s * d = 2 ^ t * e) :
    s = t ∧ d = e := by
  induction s generalizing t with
  | zero =>
    cases t with
    | zero => exact ⟨rfl, by rwa [pow_zero, one_mul, one_mul] at same⟩
    | succ t =>
      rw [pow_zero, one_mul, pow_succ', mul_assoc] at same
      omega
  | succ s ih =>
    cases t with
    | zero =>
      rw [pow_zero, one_mul, pow_succ', mul_assoc] at same
      omega
    | succ t =>
      rw [pow_succ', pow_succ', mul_assoc, mul_assoc] at same
      obtain ⟨rfl, rfl⟩ := ih (Nat.mul_left_cancel two_pos same)
      exact ⟨rfl, rfl⟩

theorem strong_iff {n base s d : ℕ} (split : n - 1 = 2 ^ s * d) (odd : d % 2 = 1) :
    IsStrongProbablePrime n base ↔ base ^ d ≡ 1 [MOD n] ∨ ∃ r < s,
    base ^ (2 ^ r * d) ≡ n - 1 [MOD n] := by
  constructor
  · rintro ⟨t, e, other, oddE, test⟩
    obtain ⟨rfl, rfl⟩ := two_pow_mul_injective odd oddE (split.symm.trans other)
    exact test
  · exact fun test => ⟨s, d, split, odd, test⟩

/-- Repeated squaring comes to one only by way of minus one. -/
theorem minusOne_of_square {R : Type*} [Ring R] [NoZeroDivisors R] {x : R} {s : ℕ}
    (one : x ^ 2 ^ s = 1) :
    x = 1 ∨ ∃ r < s, x ^ 2 ^ r = -1 := by
  induction s with
  | zero => exact .inl (by rwa [pow_zero, pow_one] at one)
  | succ s ih =>
    rw [pow_succ, pow_mul, pow_two, mul_self_eq_one_iff] at one
    rcases one with one | minusOne
    · rcases ih one with first | ⟨r, less, minusOne⟩
      · exact .inl first
      · exact .inr ⟨r, Nat.lt_succ_of_lt less, minusOne⟩
    · exact .inr ⟨s, Nat.lt_succ_self s, minusOne⟩

theorem modEq_pred_iff {n x : ℕ} (positive : 0 < n) : x ≡ n - 1 [MOD n] ↔ (x : ZMod n) = -1 := by
  rw [← ZMod.natCast_eq_natCast_iff, Nat.cast_sub positive, ZMod.natCast_self,
    zero_sub, Nat.cast_one]

theorem strong_of_prime {n base : ℕ} (prime : n.Prime) (coprime : ¬ n ∣ base) :
    IsStrongProbablePrime n base := by
  have := Fact.mk prime
  have two := prime.two_le
  obtain ⟨s, d, odd, split⟩ := Nat.exists_eq_two_pow_mul_odd (n := n - 1) (by omega)
  refine ⟨s, d, split, Nat.odd_iff.mp odd, ?_⟩
  have unit : (base : ZMod n) ≠ 0 := mt (ZMod.natCast_eq_zero_iff base n).mp coprime
  have fermat : ((base : ZMod n) ^ d) ^ 2 ^ s = 1 := by
    rw [← pow_mul, Nat.mul_comm, ← split]
    exact ZMod.pow_card_sub_one_eq_one unit
  rcases minusOne_of_square fermat with one | ⟨r, less, minusOne⟩
  · refine .inl ((ZMod.natCast_eq_natCast_iff _ _ _).mp ?_)
    rw [Nat.cast_pow, one, Nat.cast_one]
  · refine .inr ⟨r, less, (modEq_pred_iff prime.pos).mpr ?_⟩
    rw [Nat.cast_pow, Nat.mul_comm, pow_mul, minusOne]

/-- No power of a factor is one or minus one. -/
theorem not_strong_of_dvd {n p : ℕ} (prime : p.Prime) (factor : p ∣ n) :
    ¬ IsStrongProbablePrime n p := by
  rintro ⟨s, d, split, odd, test⟩
  have power : ∀ k, p ∣ p ^ (2 ^ k * d) := fun k =>
    dvd_pow_self p (Nat.mul_ne_zero (by positivity) (by omega))
  rcases test with one | ⟨r, _, minusOne⟩
  · have first := power 0
    rw [pow_zero, one_mul] at first
    exact prime.one_lt.ne' (Nat.dvd_one.mp ((one.dvd_iff factor).mp first))
  · have below : p ∣ n - 1 := (minusOne.dvd_iff factor).mp (power r)
    have positive : 0 < 2 ^ s * d := Nat.mul_pos (by positivity) (by omega)
    have one := (Nat.dvd_sub_iff_right (by omega) factor).mp below
    exact prime.one_lt.ne' (Nat.dvd_one.mp one)

/-- A composite number that the bases do not tell from a prime has no factor among them. -/
theorem IsStrongPseudoprime.large {n : ℕ} (pseudoprime : IsStrongPseudoprime n) : 41 * 41 ≤ n := by
  obtain ⟨two, composite, strong⟩ := pseudoprime
  have prime := Nat.minFac_prime (n := n) (by omega)
  have least : 41 ≤ n.minFac := by
    by_contra small
    rcases Nat.lt_or_ge 37 n.minFac with above | inside
    · have between : n.minFac < 41 := Nat.not_le.mp small
      generalize n.minFac = p at *
      interval_cases p <;> revert prime <;> norm_num
    · exact not_strong_of_dvd prime n.minFac_dvd (strong _ prime inside)
  have square := Nat.minFac_sq_le_self (by omega) composite
  calc 41 * 41 ≤ n.minFac * n.minFac := Nat.mul_le_mul least least
    _ = n.minFac ^ 2 := (pow_two _).symm
    _ ≤ n := square

end BankedRing.Prime
