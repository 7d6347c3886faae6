import BankedRing.Proofs.Residue.Arithmetic

/-! Barrett multiplication from end to end. With the constant that is computed for an
admitted modulus, the estimated quotient is the true one or one less, the reduction gives
the remainder, and products are products modulo the modulus, for reduced factors and for
any words. -/
namespace BankedRing.Residue
variable {m : Word}

theorem barrettQuotient_close (supported : Modulus.isSupported m = true) {x : DoubleWord}
    (below : x.toNat < m.toNat * m.toNat) :
    ∃ q : Word, barrettQuotient x m (UInt64.ofNat (Modulus.reciprocal m)) = .ok q ∧
      q.toNat ≤ x.toNat / m.toNat ∧ x.toNat / m.toNat ≤ q.toNat + 1 := by
  have positive := Modulus.pos supported
  obtain ⟨q, estimated, notAbove, atMostOne⟩ := barrettQuotient_eq_ok supported below
  have least : q ≤ x.toNat / m.toNat := (Nat.le_div_iff_mul_le positive).mpr notAbove
  have most : x.toNat / m.toNat < q + 2 := (Nat.div_lt_iff_lt_mul positive).mpr atMostOne
  have small : x.toNat / m.toNat < m.toNat := (Nat.div_lt_iff_lt_mul positive).mpr below
  have word : (UInt64.ofNat q).toNat = q := by
    have := m.toNat_lt
    rw [UInt64.toNat_ofNat', Nat.mod_eq_of_lt (by omega)]
  refine ⟨_, estimated, ?_, ?_⟩
  · rwa [word]
  · rw [word]
    omega

theorem mul_eq_ok (supported : Modulus.isSupported m = true) (a b : Word) :
    mul a b m = .ok (residue (a.toNat * b.toNat) m) := by
  have positive := Modulus.pos supported
  have same : residue ((residue a.toNat m).toNat * (residue b.toNat m).toNat) m =
      residue (a.toNat * b.toNat) m := by
    apply residue_congr
    rw [toNat_residue _ positive, toNat_residue _ positive, ← Nat.mul_mod]
  rw [mul, Modulus.barrettConstant_eq_ok supported, reduce_eq_ok a positive,
    reduce_eq_ok b positive, ← same]
  exact mulReduced_eq_ok supported (residue_lt _ positive) (residue_lt _ positive)

/-- With the constant of an admitted modulus the estimated quotient is at most one below the
true one, reduction is exact below the square of the modulus, and so are products. -/
theorem barrett_exact (supported : Modulus.isSupported m = true) :
    ∃ mu, Modulus.barrettConstant m = .ok mu ∧
      (∀ x : DoubleWord, x.toNat < m.toNat * m.toNat →
        (∃ q, barrettQuotient x m mu = .ok q ∧ q.toNat ≤ x.toNat / m.toNat ∧
          x.toNat / m.toNat ≤ q.toNat + 1) ∧
          ∃ r, barrettReduce x m mu = .ok r ∧ r.toNat = x.toNat % m.toNat) ∧
      (∀ a b : Word, a < m → b < m →
        ∃ r, mulReduced a b m mu = .ok r ∧ r.toNat = a.toNat * b.toNat % m.toNat) ∧
      ∀ a b : Word, ∃ r, mul a b m = .ok r ∧ r.toNat = a.toNat * b.toNat % m.toNat := by
  have positive := Modulus.pos supported
  refine ⟨_, Modulus.barrettConstant_eq_ok supported, fun x below => ⟨?_, ?_⟩, fun a b ha hb => ?_,
    fun a b => ?_⟩
  · exact barrettQuotient_close supported below
  · exact ⟨_, barrettReduce_eq_ok supported below, toNat_residue _ positive⟩
  · exact ⟨_, mulReduced_eq_ok supported ha hb, toNat_residue _ positive⟩
  · exact ⟨_, mul_eq_ok supported a b, toNat_residue _ positive⟩

/-- The least modulus of sixty bits, whose constant needs all bits of a word. -/
theorem barrett_exact_widest :
    Modulus.isSupported 576460752303423489 = true ∧
      (DoubleWord.mk 18014398509481984 576460752303423490).toNat <
        576460752303423489 * 576460752303423489 ∧
      ∃ mu, Modulus.barrettConstant 576460752303423489 = .ok mu ∧
        (∃ q, barrettQuotient ⟨18014398509481984, 576460752303423490⟩ 576460752303423489 mu =
          .ok q ∧
          q.toNat ≤ 576460752303423488 ∧ 576460752303423488 ≤ q.toNat + 1) ∧
        (∃ r, barrettReduce ⟨18014398509481984, 576460752303423490⟩ 576460752303423489 mu = .ok r ∧
          r.toNat = 2) ∧
        (∃ r, mulReduced 576460752303423488 576460752303423488 576460752303423489 mu = .ok r ∧
          r.toNat = 1) ∧
        ∃ r, mul 18446744073709551615 18446744073709551615 576460752303423489 = .ok r ∧
          r.toNat = 1089 := by
  have supported : Modulus.isSupported 576460752303423489 = true := by decide
  obtain ⟨mu, constant, reduction, reduced, any⟩ := barrett_exact supported
  obtain ⟨estimate, remainder⟩ := reduction ⟨18014398509481984, 576460752303423490⟩ (by decide)
  exact ⟨supported, by decide, mu, constant, estimate, remainder,
    reduced _ _ (by decide) (by decide), any _ _⟩

/-- The bound on the estimate is attained there. -/
example : barrettQuotient ⟨18014398509481984, 576460752303423490⟩ 576460752303423489
    18446744073709551584 =
    .ok 576460752303423487 := by decide

end BankedRing.Residue
