import BankedRing.Proofs.Residue.Arithmetic

/-! Shoup multiplication from end to end. The companion of a fixed factor is rounded down, so the
quotient it estimates is the true one or one less, for every word as the other factor. Both products
of the remainder wrap; their difference does not, since it stays below twice the modulus. -/
namespace BankedRing.Residue
variable {m : Word}

theorem shoupQuotient_close {w : Word} (positive : 0 < m.toNat) (hw : w < m) (a : Word) :
    ∃ q : Word, DoubleWord.productHigh a (companion w m) = .ok q ∧
      q.toNat ≤ a.toNat * w.toNat / m.toNat ∧ a.toNat * w.toNat / m.toNat ≤ q.toNat + 1 := by
  obtain ⟨notAbove, atMostOne⟩ := shoup_estimate (a := a.toNat) (w := w.toNat) (r := UInt64.size)
    positive (Nat.le_of_lt a.toNat_lt) (by decide)
  rw [← toNat_companion positive hw] at notAbove atMostOne
  have small : a.toNat * (companion w m).toNat / UInt64.size < 2 ^ 64 := by
    rw [Nat.div_lt_iff_lt_mul (by decide)]
    exact Nat.mul_lt_mul'' a.toNat_lt (companion w m).toNat_lt
  have least := (Nat.le_div_iff_mul_le positive).mpr notAbove
  have most := (Nat.div_lt_iff_lt_mul positive).mpr atMostOne
  refine ⟨_, DoubleWord.productHigh_eq_ok a _, ?_, ?_⟩
  · rwa [UInt64.toNat_ofNat', Nat.mod_eq_of_lt small]
  · rw [UInt64.toNat_ofNat', Nat.mod_eq_of_lt small]
    omega

/-- With the companion that is computed for a fixed factor the estimated quotient is at most one
below the true one, and the product is exact, for every word as the other factor and every modulus
up to half the radix. -/
theorem shoup_exact (half : m.toNat ≤ 2 ^ 63) {w : Word} (hw : w < m) (a : Word) :
    (∃ q, DoubleWord.productHigh a (companion w m) = .ok q ∧
        q.toNat ≤ a.toNat * w.toNat / m.toNat ∧ a.toNat * w.toNat / m.toNat ≤ q.toNat + 1) ∧
      ∃ r, mulFixed a w m (companion w m) = .ok r ∧ r.toNat = a.toNat * w.toNat % m.toNat := by
  have positive : 0 < m.toNat := Nat.lt_of_le_of_lt (Nat.zero_le _) (UInt64.lt_iff_toNat_lt.mp hw)
  exact ⟨shoupQuotient_close positive hw a, _, mulFixed_eq_ok half hw a, toNat_residue _ positive⟩

/-- The largest modulus, its largest factor and the largest word, whose product leaves a word. -/
theorem shoup_exact_half :
    (9223372036854775808 : Word).toNat ≤ 2 ^ 63 ∧
    (9223372036854775807 : Word) < 9223372036854775808 ∧
      UInt64.size ≤ (18446744073709551615 : Word).toNat * (9223372036854775807 : Word).toNat ∧
      ∃ r, mulFixed 18446744073709551615 9223372036854775807 9223372036854775808
        (companion 9223372036854775807 9223372036854775808) = .ok r ∧ r.toNat = 1 := by
  have product :=
    shoup_exact (m := 9223372036854775808) (w := 9223372036854775807) (by decide) (by decide)
    18446744073709551615
  exact ⟨by decide, by decide, by decide, product.2⟩

/-- The bound on the estimate is attained: the true quotient is 18446744073709551612. -/
example : DoubleWord.productHigh 18446744073709551614
    (companion 9223372036854775806 9223372036854775807) =
    .ok 18446744073709551611 := by decide

end BankedRing.Residue
