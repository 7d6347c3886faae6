import BankedRing.Proofs.Outcome
import BankedRing.Proofs.Residue.Arithmetic
import BankedRing.Residue.Inverse
import Mathlib.Data.Int.GCD

/-! Inverses are complete and correct. Euclid's descent runs on signed words without an
overflow: with the coefficients `s u` and `-s v` for a sign `s`, the number `r v + r' u`
stays the modulus, and it bounds everything that a step computes. -/
namespace BankedRing.Residue

theorem signed_eq_ok {x : Int} {bound : Nat} (word : bound < 2 ^ 63) (h : x.natAbs ≤ bound) :
    Checked.signed x = .ok x := by
  rw [Checked.signed, if_pos (by omega)]

/-- A point of the descent: the remainders `r` and `r'` are congruent to multiples of `a`, and
their coefficients, of the signs `sign` and `-sign`, are bounded by `r v + r' u = m`. -/
structure Descent (a : Int) (m r r' u v : Nat) (sign : Int) : Prop where
  unit : sign = 1 ∨ sign = -1
  positive : 0 < r
  remainder_le : r ≤ m
  divisor_le : r' ≤ m
  coefficient_le : u ≤ m
  total : r * v + r' * u = m
  first : (m : Int) ∣ sign * u * a - r
  second : (m : Int) ∣ -(sign * v) * a - r'

namespace Descent
variable {a : Int} {m r r' u v : Nat} {sign : Int} (descent : Descent a m r r' u v sign)
include descent

theorem natAbs_coefficient (n : Nat) : (sign * n).natAbs = n := by
  rcases descent.unit with rfl | rfl <;> simp

theorem next_total : r' * (u + r / r' * v) + r % r' * v = m := by
  rw [← descent.total]
  conv_rhs => rw [← Nat.div_add_mod r r']
  ring

theorem next_le (divides : 0 < r') : u + r / r' * v ≤ m := by
  have total := descent.next_total
  have := Nat.le_mul_of_pos_left (u + r / r' * v) divides
  omega

theorem step (divides : 0 < r') : Descent a m r' (r % r') v (u + r / r' * v) (-sign) := by
  have total := descent.total
  have below := Nat.mod_lt r divides
  refine ⟨?_, divides, descent.divisor_le, ?_, ?_, descent.next_total, ?_, ?_⟩
  · rcases descent.unit with rfl | rfl <;> simp
  · exact Nat.le_trans (Nat.le_of_lt below) descent.divisor_le
  · have := Nat.le_mul_of_pos_left v descent.positive
    omega
  · rw [Int.neg_mul]
    exact descent.second
  · have combined := Int.dvd_sub descent.first
      (Int.dvd_mul_of_dvd_right (b := ((r / r' : Nat) : Int)) descent.second)
    refine (Int.dvd_iff_dvd_of_dvd_sub ?_).mp combined
    have whole : (r : Int) = r' * (r / r' : Nat) + (r % r' : Nat) := by
      exact_mod_cast (Nat.div_add_mod r r').symm
    rw [whole]
    push_cast
    ring_nf
    exact Int.dvd_zero _

theorem euclid_step (word : m < 2 ^ 63) (divides : 0 < r') :
    euclid r r' (sign * u) (-(sign * v)) =
      euclid r' (r % r' : Nat) (-sign * v) (-(-sign * (u + r / r' * v : Nat))) := by
  have abs := descent.natAbs_coefficient
  have small := descent.next_le divides
  have remainder_le := descent.remainder_le
  have divided := Nat.div_mul_le_self r r'
  have shorter := Nat.div_le_self r r'
  have below := Nat.mod_lt r divides
  have divisor_le := descent.divisor_le
  have quotient : (r : Int).tdiv r' = (r / r' : Nat) := (Int.ofNat_tdiv r r').symm
  have product : ((r / r' : Nat) : Int) * r' = (r / r' * r' : Nat) := by push_cast; ring
  have remainder : (r : Int) - (r / r' * r' : Nat) = (r % r' : Nat) := by
    have := Nat.div_add_mod' r r'
    omega
  have scaled : ((r / r' : Nat) : Int) * -(sign * v) = -(sign * (r / r' * v : Nat)) := by
    push_cast; ring
  have coefficient : sign * u - -(sign * (r / r' * v : Nat)) = sign * (u + r / r' * v : Nat) := by
    push_cast; ring
  have checks : Checked.signed (r / r' : Nat) = .ok ((r / r' : Nat) : Int) ∧
      Checked.signed (r / r' * r' : Nat) = .ok ((r / r' * r' : Nat) : Int) ∧
      Checked.signed (r % r' : Nat) = .ok ((r % r' : Nat) : Int) ∧
      Checked.signed (-(sign * (r / r' * v : Nat))) = .ok (-(sign * (r / r' * v : Nat))) ∧
      Checked.signed (sign * (u + r / r' * v : Nat)) = .ok (sign * (u + r / r' * v : Nat)) := by
    refine ⟨?_, ?_, ?_, ?_, ?_⟩
    · exact signed_eq_ok word (by rw [Int.natAbs_natCast]; omega)
    · exact signed_eq_ok word (by rw [Int.natAbs_natCast]; omega)
    · exact signed_eq_ok word (by rw [Int.natAbs_natCast]; omega)
    · exact signed_eq_ok word (by rw [Int.natAbs_neg, abs]; omega)
    · exact signed_eq_ok word (by rw [abs]; exact small)
  rw [euclid, dif_neg (by omega)]
  simp only [quotient, product, remainder, scaled, coefficient, checks]
  congr 1
  · rw [Int.neg_mul]
  · rw [Int.neg_mul, Int.neg_neg]

/-- The descent ends with the greatest common divisor and a small coefficient for it. -/
theorem euclid_eq_ok (word : m < 2 ^ 63) :
    ∃ c : Int, euclid r r' (sign * u) (-(sign * v)) = .ok ((Nat.gcd r r' : Nat), c) ∧
      c.natAbs ≤ m ∧ (m : Int) ∣ c * a - (Nat.gcd r r' : Nat) := by
  induction r' using Nat.strong_induction_on generalizing r u v sign with
  | _ r' ih =>
    rcases Nat.eq_zero_or_pos r' with zero | divides
    · subst zero
      rw [Nat.gcd_zero_right]
      refine ⟨sign * u, ?_, ?_, descent.first⟩
      · rw [euclid, dif_pos (show ((0 : Nat) : Int) = 0 from rfl)]
        rfl
      · rw [descent.natAbs_coefficient]
        exact descent.coefficient_le
    · have shorter : Nat.gcd r r' = Nat.gcd r' (r % r') := by
        rw [Nat.gcd_comm r' (r % r'), ← Nat.gcd_rec, Nat.gcd_comm]
      rw [descent.euclid_step word divides, shorter]
      exact ih (r % r') (Nat.mod_lt r divides) (descent.step divides)

end Descent

theorem bmod_word {n : Nat} (h : n < 9223372036854775808) :
    (n : Int).bmod 18446744073709551616 = n := by
  have lower : -(((18446744073709551616 : Nat) : Int) / 2) = -9223372036854775808 := by norm_num
  have upper : (((18446744073709551616 : Nat) : Int) + 1) / 2 = 9223372036854775808 := by norm_num
  apply Int.bmod_eq_of_le
  · rw [lower]; omega
  · rw [upper]; omega

theorem toSigned_eq {x : Word} (h : x.toNat < 2 ^ 63) : toSigned x = x.toNat := bmod_word h

theorem toNat_ofInt {n : Nat} (h : n < 2 ^ 64) : (UInt64.ofInt n).toNat = n := by
  rw [UInt64.ofInt, UInt64.toNat_ofNat']
  omega

theorem Descent.start {x m : Nat} (positive : 0 < x) (below : x ≤ m) : Descent x m x m 1 0 1 where
  unit := .inl rfl
  positive
  remainder_le := below
  divisor_le := Nat.le_refl _
  coefficient_le := by omega
  total := by omega
  first := by simp
  second := by simp

theorem mul_emod_of_coefficient {x m n : Nat} {c : Int} (two : 2 ≤ m)
    (congruent : (m : Int) ∣ c * x - 1) (difference : (m : Int) ∣ c - n) : x * n % m = 1 := by
  have shifted := Int.dvd_sub congruent (Int.dvd_mul_of_dvd_left (c := (x : Int)) difference)
  have same : c * x - 1 - (c - n) * x = (x : Int) * n - 1 := by ring
  rw [same] at shifted
  have emod := (Int.emod_eq_emod_iff_emod_sub_eq_zero).mpr (Int.emod_eq_zero_of_dvd shifted)
  rw [Int.emod_eq_of_lt (a := 1) (by omega) (by omega)] at emod
  exact_mod_cast emod

/-- A negative coefficient is moved up by the modulus before it becomes a word. -/
theorem coefficient_eq_ok {m : Word} (two : 2 ≤ m.toNat) (half : m.toNat < 2 ^ 63)
    {x : Nat} {c : Int} (bound : c.natAbs ≤ m.toNat) (congruent : (m.toNat : Int) ∣ c * x - 1) :
    ∃ r : Word, (if c < 0 then do return UInt64.ofInt (← Checked.signed (c + m.toNat))
        else return UInt64.ofInt c : Checked Word) = .ok r ∧ r < m ∧ x * r.toNat % m.toNat = 1 := by
  split
  · rename_i negative
    obtain ⟨n, moved⟩ := Int.eq_ofNat_of_zero_le (a := c + m.toNat) (by omega)
    have word : (UInt64.ofInt (n : Int)).toNat = n := toNat_ofInt (by omega)
    rw [moved, signed_eq_ok half (by rw [Int.natAbs_natCast]; omega)]
    refine ⟨_, rfl, ?_, ?_⟩
    · rw [UInt64.lt_iff_toNat_lt, word]
      omega
    · rw [word]
      exact mul_emod_of_coefficient two congruent ⟨-1, by omega⟩
  · rename_i nonnegative
    obtain ⟨n, rfl⟩ := Int.eq_ofNat_of_zero_le (a := c) (by omega)
    have word : (UInt64.ofInt (n : Int)).toNat = n := toNat_ofInt (by omega)
    have unit : x * n % m.toNat = 1 := mul_emod_of_coefficient two congruent (by simp)
    have strict : n ≠ m.toNat := by
      rintro rfl
      rw [Nat.mul_mod_left] at unit
      omega
    refine ⟨_, rfl, ?_, ?_⟩
    · rw [UInt64.lt_iff_toNat_lt, word]
      omega
    · rw [word]
      exact unit

/-- The inverse of a residue is zero exactly where none exists. -/
theorem inverse_eq_ok {m : Word} (two : 2 ≤ m.toNat) (half : m.toNat < 2 ^ 63) (a : Word) :
    ∃ r : Word, inverse a m = .ok r ∧ r < m ∧
      (Nat.gcd a.toNat m.toNat = 1 → a.toNat * r.toNat % m.toNat = 1) ∧
      (Nat.gcd a.toNat m.toNat ≠ 1 → r = 0) := by
  have positive : 0 < m.toNat := by omega
  have zeroLt : (0 : Word) < m := UInt64.lt_iff_toNat_lt.mpr positive
  have least : ¬ m < 2 := by rw [UInt64.lt_iff_toNat_lt]; exact Nat.not_lt.mpr two
  have value := toNat_residue a.toNat positive
  have gcd : Nat.gcd a.toNat m.toNat = Nat.gcd (a.toNat % m.toNat) m.toNat := by
    rw [Nat.gcd_comm, Nat.gcd_rec]
  have product : ∀ n : Nat, a.toNat * n % m.toNat = a.toNat % m.toNat * n % m.toNat := by
    intro n
    rw [Nat.mod_mul_mod]
  rw [inverse, if_neg least, reduce_eq_ok a positive, gcd]
  simp only [product, ok_bind]
  have below := Nat.mod_lt a.toNat positive
  rw [← value] at below ⊢
  generalize residue a.toNat m = x at below ⊢
  split
  · rename_i zero
    subst zero
    refine ⟨0, rfl, zeroLt, fun coprime => ?_, fun _ => rfl⟩
    rw [UInt64.toNat_zero, Nat.gcd_zero_left] at coprime
    rw [coprime] at two
    exact absurd two (by decide)
  · rename_i nonzero
    have xPos : 0 < x.toNat := Nat.pos_of_ne_zero fun zero => nonzero (UInt64.toNat_inj.mp zero)
    obtain ⟨c, descent, bound, congruent⟩ :=
      (Descent.start xPos (Nat.le_of_lt below)).euclid_eq_ok half
    simp only [Nat.cast_one, Nat.cast_zero, mul_one, mul_zero, neg_zero] at descent
    rw [toSigned_eq (by omega), toSigned_eq half, descent]
    have unit : ((Nat.gcd x.toNat m.toNat : Nat) : Int) ≠ 1 ↔ Nat.gcd x.toNat m.toNat ≠ 1 := by
      rw [Ne, Nat.cast_eq_one]
    simp only [ok_bind, unit]
    split
    · rename_i common
      exact ⟨0, rfl, zeroLt, fun coprime => absurd coprime common, fun _ => rfl⟩
    · rename_i coprime
      rw [not_not] at coprime
      rw [coprime, Nat.cast_one] at congruent
      obtain ⟨r, answered, less, inverts⟩ := coefficient_eq_ok two half bound congruent
      exact ⟨r, answered, less, fun _ => inverts, fun common => absurd coprime common⟩

end BankedRing.Residue
