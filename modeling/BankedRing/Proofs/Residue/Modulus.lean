import BankedRing.Proofs.Word.Double
import BankedRing.Residue.Modulus
import Mathlib.Data.Nat.Size

/-! The admitted moduli and their Barrett constants. A modulus of `k` bits lies in
`[2 ^ (k - 1), 2 ^ k)`, and the quotient `⌊2 ^ (2 k + 3) / m⌋` of an admitted one fits
a word. -/
namespace BankedRing

theorem ne_zero_of_pos {x : Word} (positive : 0 < x.toNat) : x ≠ 0 := by
  rintro rfl
  exact absurd positive (by decide)

theorem two_pow_bitLength_le {x : Word} (h : x ≠ 0) : 2 ^ (bitLength x - 1) ≤ x.toNat := by
  have nonzero : x.toNat ≠ 0 := fun zero => h (UInt64.toNat_inj.mp zero)
  simp only [bitLength, if_neg h, Nat.add_sub_cancel]
  exact Nat.log2_self_le nonzero

theorem lt_two_pow_bitLength (x : Word) : x.toNat < 2 ^ bitLength x := by
  by_cases h : x = 0
  · subst h
    decide
  · simp only [bitLength, if_neg h]
    exact Nat.lt_log2_self

theorem bitLength_le {x : Word} {k : Nat} (h : x.toNat < 2 ^ k) : bitLength x ≤ k := by
  by_cases zero : x = 0
  · simp [bitLength, zero]
  · have below := Nat.lt_of_le_of_lt (two_pow_bitLength_le zero) h
    have := (Nat.pow_lt_pow_iff_right (by decide : 1 < 2)).mp below
    omega

theorem lt_bitLength {x : Word} {k : Nat} (h : 2 ^ k ≤ x.toNat) : k < bitLength x :=
  (Nat.pow_lt_pow_iff_right (by decide : 1 < 2)).mp (Nat.lt_of_le_of_lt h (lt_two_pow_bitLength x))

theorem bitLength_eq_size (x : Word) : bitLength x = x.toNat.size := by
  apply Nat.le_antisymm
  · exact bitLength_le (Nat.size_le.mp (Nat.le_refl _))
  · exact Nat.size_le.mpr (lt_two_pow_bitLength x)

theorem isPowerOfTwo_iff {n : Nat} : isPowerOfTwo n = true ↔ n = 2 ^ n.log2 := by
  simp [isPowerOfTwo, Nat.shiftLeft_eq]

theorem isPowerOfTwo_two_pow (k : Nat) : isPowerOfTwo (2 ^ k) = true := by
  rw [isPowerOfTwo_iff, Nat.log2_two_pow]

namespace DoubleWord

theorem powerOfTwo_eq_ok {exponent : Nat} (h : exponent < 128) :
    powerOfTwo exponent = .ok (ofNat (2 ^ exponent)) := by
  have small : 2 ^ exponent < 2 ^ 128 := Nat.pow_lt_pow_right (by decide) h
  unfold powerOfTwo
  split
  · rename_i high
    have bound : exponent - 64 < 64 := by omega
    simp only [Checked.shiftLeft, bound, if_true, bind, Except.bind, pure, Except.pure,
      Except.ok.injEq]
    apply eq_of_toNat_eq
    rw [toNat_ofNat small, toNat, toNat_one_shiftLeft bound]
    simp only [UInt64.size, UInt64.toNat_zero, Nat.add_zero]
    rw [show 18446744073709551616 = 2 ^ 64 from rfl, ← Nat.pow_add]
    congr 1
    omega
  · rename_i low
    have bound : exponent < 64 := by omega
    simp only [Checked.shiftLeft, bound, if_true, bind, Except.bind, pure, Except.pure,
      Except.ok.injEq]
    apply eq_of_toNat_eq
    rw [toNat_ofNat small, toNat, toNat_one_shiftLeft bound]
    simp

end DoubleWord

namespace Modulus

theorem isSupported_iff {m : Word} :
    isSupported m = true ↔ 2 ≤ m.toNat ∧ m.toNat < 2 ^ 60 ∧ m.toNat ≠ 2 ^ 59 := by
  have two : (2 ≤ m) ↔ 2 ≤ m.toNat := UInt64.le_iff_toNat_le
  have accepted : isSupported m = true ↔ (2 ≤ m.toNat ∧ bitLength m ≤ maximumBits) ∧
      (isPowerOfTwo m.toNat = false ∨ bitLength m ≠ maximumBits) := by
    simp [isSupported, two]
  rw [accepted, maximumBits]
  constructor
  · rintro ⟨⟨least, bits⟩, notTop⟩
    have below := Nat.lt_of_lt_of_le (lt_two_pow_bitLength m)
      (Nat.pow_le_pow_right (by decide : 0 < 2) bits)
    refine ⟨least, below, ?_⟩
    intro top
    have longest : bitLength m = 60 := by
      have := lt_bitLength (x := m) (k := 59) (by omega)
      omega
    rcases notTop with other | shorter
    · rw [top, isPowerOfTwo_two_pow] at other
      contradiction
    · exact shorter longest
  · rintro ⟨least, below, notTop⟩
    refine ⟨⟨least, bitLength_le below⟩, ?_⟩
    by_cases longest : bitLength m = 60
    · left
      by_contra power
      rw [Bool.not_eq_false, isPowerOfTwo_iff] at power
      have nonzero : m ≠ 0 := by rintro rfl; simp at least
      simp only [bitLength, if_neg nonzero] at longest
      rw [show m.toNat.log2 = 59 by omega] at power
      exact notTop power
    · exact .inr longest

theorem two_le {m : Word} (h : isSupported m = true) : 2 ≤ m.toNat := (isSupported_iff.mp h).1

theorem lt_two_pow {m : Word} (h : isSupported m = true) : m.toNat < 2 ^ 60 :=
  (isSupported_iff.mp h).2.1

theorem pos {m : Word} (h : isSupported m = true) : 0 < m.toNat := by have := two_le h; omega

theorem ne_zero {m : Word} (h : isSupported m = true) : m ≠ 0 := ne_zero_of_pos (pos h)

theorem two_le_bitLength {m : Word} (h : isSupported m = true) : 2 ≤ bitLength m :=
  lt_bitLength (k := 1) (two_le h)

theorem bitLength_le_sixty {m : Word} (h : isSupported m = true) : bitLength m ≤ 60 :=
  bitLength_le (lt_two_pow h)

/-- The number that the Barrett constant of a modulus stands for. -/
def reciprocal (m : Word) : Nat := 2 ^ (2 * bitLength m + 3) / m.toNat

theorem reciprocal_lt {m : Word} (h : isSupported m = true) : reciprocal m < 2 ^ 64 := by
  have positive := pos h
  have bits := two_le_bitLength h
  rw [reciprocal, Nat.div_lt_iff_lt_mul positive]
  have split : 2 ^ (2 * bitLength m + 3) = 2 ^ (bitLength m + 4) * 2 ^ (bitLength m - 1) := by
    rw [← Nat.pow_add]
    congr 1
    omega
  have least := two_pow_bitLength_le (ne_zero h)
  rcases Nat.lt_or_eq_of_le (bitLength_le_sixty h) with short | longest
  · have wide : 2 ^ (bitLength m + 4) < 2 ^ 64 := Nat.pow_lt_pow_right (by decide) (by omega)
    rw [split]
    exact Nat.mul_lt_mul_of_lt_of_le wide least positive
  · -- Only the power of two itself would reach the word radix here.
    have notTop := (isSupported_iff.mp h).2.2
    rw [longest] at least ⊢
    have strict : 2 ^ 59 < m.toNat := Nat.lt_of_le_of_ne least (Ne.symm notTop)
    calc 2 ^ (2 * 60 + 3) = 2 ^ 64 * 2 ^ 59 := by decide
      _ < 2 ^ 64 * m.toNat := Nat.mul_lt_mul_of_pos_left strict (by decide)

/-- The power of two that is refused has the word radix itself as its constant. -/
theorem reciprocal_top {m : Word} (top : m.toNat = 2 ^ 59) : reciprocal m = 2 ^ 64 := by
  have longest : bitLength m = 60 := by
    have upper := bitLength_le (x := m) (k := 60) (by omega)
    have lower := lt_bitLength (x := m) (k := 59) (by omega)
    omega
  rw [reciprocal, longest, top]
  decide

theorem reciprocal_lt_iff {m : Word} (two : 2 ≤ m.toNat) (sixty : m.toNat < 2 ^ 60) :
    reciprocal m < 2 ^ 64 ↔ isSupported m = true := by
  constructor
  · intro fits
    refine isSupported_iff.mpr ⟨two, sixty, fun top => ?_⟩
    rw [reciprocal_top top] at fits
    exact Nat.lt_irrefl _ fits
  · exact reciprocal_lt

theorem barrettConstant_eq_ok {m : Word} (h : isSupported m = true) :
    barrettConstant m = .ok (UInt64.ofNat (reciprocal m)) := by
  have positive := pos h
  have bits := bitLength_le_sixty h
  have small : 2 ^ (2 * bitLength m + 3) < 2 ^ 128 := Nat.pow_lt_pow_right (by decide) (by omega)
  rw [barrettConstant, if_neg (ne_zero h), DoubleWord.powerOfTwo_eq_ok (by omega)]
  simp only [bind, Except.bind]
  split
  · rename_i power
    have log : bitLength m - 1 = m.toNat.log2 := by simp [bitLength, ne_zero h]
    simp only [pure, Except.pure, Except.ok.injEq]
    apply UInt64.toNat_inj.mp
    rw [DoubleWord.toNat_shiftRight, DoubleWord.toNat_ofNat small, log, ← isPowerOfTwo_iff.mp power,
      UInt64.toNat_ofNat', reciprocal]
  · rw [DoubleWord.divide_eq _ positive, DoubleWord.toNat_ofNat small]
    rfl

theorem toNat_ofNat_reciprocal {m : Word} (h : isSupported m = true) :
    (UInt64.ofNat (reciprocal m)).toNat = reciprocal m := by
  rw [UInt64.toNat_ofNat', Nat.mod_eq_of_lt (reciprocal_lt h)]

/-- Among the numbers of at most sixty bits the admitted moduli are those whose constant
`⌊2 ^ (2 k + 3) / m⌋` fits a word, and that constant is what is computed for them, by the
shift for a power of two and by the long division for the others. -/
theorem barrettConstant_exact {m : Word} (two : 2 ≤ m.toNat) (sixty : m.toNat < 2 ^ 60) :
    (2 ^ (2 * m.toNat.size + 3) / m.toNat < 2 ^ 64 ↔ isSupported m = true) ∧
      (isSupported m = true →
        ∃ mu, barrettConstant m = .ok mu ∧ mu.toNat = 2 ^ (2 * m.toNat.size + 3) / m.toNat) := by
  rw [← bitLength_eq_size]
  refine ⟨reciprocal_lt_iff two sixty, fun supported => ?_⟩
  exact ⟨_, barrettConstant_eq_ok supported, toNat_ofNat_reciprocal supported⟩

/-- The refused power of two, its neighbour by the long division and its half by the shift. -/
theorem barrettConstant_exact_widest :
    (2 ≤ (576460752303423488 : Word).toNat ∧ (576460752303423488 : Word).toNat < 2 ^ 60 ∧
        isSupported 576460752303423488 = false ∧
        ¬ 2 ^ (2 * (576460752303423488 : Word).toNat.size + 3) / (576460752303423488 : Word).toNat <
          2 ^ 64) ∧
      (isSupported 576460752303423489 = true ∧
        ∃ mu, barrettConstant 576460752303423489 = .ok mu ∧ mu.toNat = 18446744073709551584) ∧
      isSupported 288230376151711744 = true ∧
        ∃ mu, barrettConstant 288230376151711744 = .ok mu ∧ mu.toNat = 9223372036854775808 := by
  have top := barrettConstant_exact (m := 576460752303423488) (by decide) (by decide)
  have above := barrettConstant_exact (m := 576460752303423489) (by decide) (by decide)
  have below := barrettConstant_exact (m := 288230376151711744) (by decide) (by decide)
  have refused : isSupported 576460752303423488 = false := by decide
  have admitted : isSupported 576460752303423489 = true := by decide
  have power : isSupported 288230376151711744 = true := by decide
  rw [← bitLength_eq_size] at above below
  obtain ⟨mu, divided, quotient⟩ := above.2 admitted
  obtain ⟨nu, shifted, half⟩ := below.2 power
  refine ⟨⟨by decide, by decide, refused, fun fits => ?_⟩,
    ⟨admitted, mu, divided, quotient.trans (by decide)⟩,
    power, nu, shifted, half.trans (by decide)⟩
  cases refused.symm.trans (top.1.mp fits)

end Modulus
end BankedRing
