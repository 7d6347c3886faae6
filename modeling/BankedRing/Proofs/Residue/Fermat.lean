import BankedRing.Proofs.Residue.Inverse
import Mathlib.FieldTheory.Finite.Basic
import Mathlib.Tactic.NormNum.Prime

/-! Two ways to an inverse. Euclid's descent answers for every word under every modulus below
half the radix, with the only residue that inverts the word and with zero exactly where there is
none; under an odd prime the power by two less than the modulus answers the same. -/
namespace BankedRing.Residue
variable {m : Word}

theorem eq_of_inverts {a u r : Word} (coprime : Nat.gcd a.toNat m.toNat = 1)
    (hu : u < m) (hr : r < m) (first : a.toNat * u.toNat % m.toNat = 1)
    (second : a.toNat * r.toNat % m.toNat = 1) : u = r := by
  have cancelled : u.toNat ≡ r.toNat [MOD m.toNat] :=
    Nat.ModEq.cancel_left_of_coprime (by rwa [Nat.gcd_comm]) (first.trans second.symm)
  rw [Nat.ModEq, Nat.mod_eq_of_lt (UInt64.lt_iff_toNat_lt.mp hu),
    Nat.mod_eq_of_lt (UInt64.lt_iff_toNat_lt.mp hr)] at cancelled
  exact UInt64.toNat_inj.mp cancelled

theorem one_le_of_inverts {a u : Word} (inverts : a.toNat * u.toNat % m.toNat = 1) : 1 ≤ u := by
  rw [UInt64.le_iff_toNat_le, UInt64.toNat_one, Nat.one_le_iff_ne_zero]
  intro zero
  rw [zero, Nat.mul_zero, Nat.zero_mod] at inverts
  exact absurd inverts (by decide)

theorem mul_pow_emod {a p : Nat} (prime : p.Prime) (coprime : Nat.gcd a p = 1) :
    a * a ^ (p - 2) % p = 1 := by
  have two := prime.two_le
  have fermat : a ^ (p - 1) ≡ 1 [MOD p] := by
    rw [← Nat.totient_prime prime]
    exact Nat.ModEq.pow_totient coprime
  have whole : a * a ^ (p - 2) = a ^ (p - 1) := by
    rw [← Nat.pow_succ']
    congr 1
    omega
  rw [whole, fermat, Nat.mod_eq_of_lt (by omega)]

theorem pow_emod_of_not_coprime {a p : Nat} (prime : p.Prime) (odd : p % 2 = 1)
    (common : Nat.gcd a p ≠ 1) :
    a ^ (p - 2) % p = 0 := by
  have two := prime.two_le
  have divides : p ∣ a := (Nat.coprime_or_dvd_of_prime prime a).resolve_left fun coprime =>
    common (by rw [Nat.gcd_comm]; exact coprime)
  exact Nat.mod_eq_zero_of_dvd (dvd_pow divides (by omega))

/-- Under an odd prime the power by two less than the modulus is the residue that inverts a
word, or zero if there is none. -/
theorem pow_eq_inverse (supported : Modulus.isSupported m = true) (prime : m.toNat.Prime)
    (odd : m.toNat % 2 = 1) {a r : Word} (less : r < m)
    (inverts : Nat.gcd a.toNat m.toNat = 1 → a.toNat * r.toNat % m.toNat = 1)
    (unpaired : Nat.gcd a.toNat m.toNat ≠ 1 → r = 0) : pow a (m - 2) m = .ok r := by
  have positive := Modulus.pos supported
  have exponent : (m - 2).toNat = m.toNat - 2 :=
    UInt64.toNat_sub_of_le m 2 (UInt64.le_iff_toNat_le.mpr (Modulus.two_le supported))
  rw [pow_eq_ok supported, exponent]
  refine congrArg Except.ok ?_
  by_cases coprime : Nat.gcd a.toNat m.toNat = 1
  · refine eq_of_inverts coprime (residue_lt _ positive) less ?_ (inverts coprime)
    rw [toNat_residue _ positive, Nat.mul_mod_mod]
    exact mul_pow_emod prime coprime
  · rw [unpaired coprime, residue, pow_emod_of_not_coprime prime odd coprime]
    rfl

/-- Every word has its answer: the only residue that inverts it, or zero exactly where it is no
unit. Under an odd prime the answer is the power by two less than the modulus. -/
theorem inverse_complete (two : 2 ≤ m.toNat) (half : m.toNat < 9223372036854775808) (a : Word) :
    ∃ r : Word, inverse a m = .ok r ∧ (r = 0 ↔ Nat.gcd a.toNat m.toNat ≠ 1) ∧
      (Nat.gcd a.toNat m.toNat = 1 →
        ∀ u : Word, u = r ↔ 1 ≤ u ∧ u < m ∧ a.toNat * u.toNat % m.toNat = 1) ∧
      (m.toNat.Prime → m.toNat % 2 = 1 → Modulus.isSupported m = true →
        pow a (m - 2) m = .ok r) := by
  obtain ⟨r, answered, less, inverts, unpaired⟩ := inverse_eq_ok two half a
  refine ⟨r, answered, ⟨?_, unpaired⟩, fun coprime u => ⟨?_, ?_⟩, fun prime odd supported => ?_⟩
  · rintro rfl coprime
    exact absurd (one_le_of_inverts (inverts coprime)) (by decide)
  · rintro rfl
    exact ⟨one_le_of_inverts (inverts coprime), less, inverts coprime⟩
  · rintro ⟨_, hu, inverse⟩
    exact eq_of_inverts coprime hu less inverse (inverts coprime)
  · exact pow_eq_inverse supported prime odd less inverts unpaired

/-- The widest modulus, a modulus with zero divisors and a prime. -/
theorem inverse_complete_widest :
    2 ≤ (9223372036854775807 : Word).toNat ∧
    (9223372036854775807 : Word).toNat < 9223372036854775808 ∧
      inverse 2 9223372036854775807 = .ok 4611686018427387904 ∧
      2 ≤ (9 : Word).toNat ∧ (9 : Word).toNat < 9223372036854775808 ∧ inverse 6 9 = .ok 0 ∧
      (97 : Word).toNat.Prime ∧ (97 : Word).toNat % 2 = 1 ∧ Modulus.isSupported 97 = true ∧
      inverse 3 97 = .ok 65 ∧ pow 3 95 97 = .ok 65 := by
  have prime : (97 : Word).toNat.Prime := by
    show Nat.Prime 97
    norm_num
  obtain ⟨r, wide, _, unique, _⟩ :=
    inverse_complete (m := 9223372036854775807) (by decide) (by decide) 2
  obtain rfl := (unique (by decide) 4611686018427387904).mpr (by decide)
  obtain ⟨s, refused, zero, _⟩ := inverse_complete (m := 9) (by decide) (by decide) 6
  obtain rfl := zero.mpr (by decide)
  obtain ⟨t, found, _, single, power⟩ := inverse_complete (m := 97) (by decide) (by decide) 3
  obtain rfl := (single (by decide) 65).mpr (by decide)
  exact ⟨by decide, by decide, wide, by decide, by decide, refused, prime, rfl, by decide, found,
    power prime rfl (by decide)⟩

end BankedRing.Residue
