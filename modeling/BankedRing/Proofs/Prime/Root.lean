import BankedRing.Prime.Search
import BankedRing.Proofs.Transform.Roots
import Mathlib.NumberTheory.LegendreSymbol.Basic

/-! Roots of unity under a prime. By Euler's criterion the power that the search tests is `-1`
exactly for a generator that is no square, so the search ends at the least of these; its power
by the cofactor has the order that was asked for, neither more nor less. -/
namespace BankedRing.Prime
variable {order q : Word}

/-- The numbers that are tried as generators and are no squares modulo `q`. -/
def generators (q : ℕ) : Set ℕ := {g | 2 ≤ g ∧ g < min q 65536 ∧ ¬ IsSquare (g : ZMod q)}

/-- Orders of roots of unity that are searched for: powers of two, from two on, that divide the
number of units of a prime. -/
structure Divides (order q : Word) : Prop where
  two : 2 ≤ order.toNat
  power : ∃ k, order.toNat = 2 ^ k
  divides : order.toNat ∣ q.toNat - 1

theorem minusOne_iff {p : ℕ} [Fact p.Prime] (odd : p ≠ 2) {x : ZMod p} (nonzero : x ≠ 0) :
    x ^ (p / 2) = -1 ↔ ¬ IsSquare x := by
  have large : Fact (2 < p) := ⟨lt_of_le_of_ne (Nat.Prime.two_le Fact.out) odd.symm⟩
  have distinct : (-1 : ZMod p) ≠ 1 := ZMod.neg_one_ne_one
  rw [ZMod.euler_criterion p nonzero]
  rcases ZMod.pow_div_two_eq_neg_one_or_one p nonzero with one | minusOne
  · rw [one]
    exact ⟨fun same => absurd same.symm distinct, fun other => absurd rfl other⟩
  · rw [minusOne]
    exact ⟨fun _ => distinct, fun _ => rfl⟩

namespace Divides

theorem exists_half (shape : Divides order q) :
    ∃ k, order.toNat / 2 = 2 ^ k ∧ order.toNat = 2 * 2 ^ k := by
  obtain ⟨k, power⟩ := shape.power
  have two := shape.two
  cases k with
  | zero =>
    rw [power, pow_zero] at two
    omega
  | succ k =>
    rw [pow_succ'] at power
    exact ⟨k, by omega, power⟩

theorem odd (shape : Divides order q) (positive : 0 < q.toNat) : q.toNat % 2 = 1 := by
  obtain ⟨k, _, power⟩ := shape.exists_half
  have even : 2 ∣ q.toNat - 1 := (Dvd.intro _ power.symm).trans shape.divides
  omega

theorem toNat_cofactor (positive : 0 < q.toNat) :
    ((q - 1) / order).toNat = (q.toNat - 1) / order.toNat := by
  rw [UInt64.toNat_div, toNat_pred positive]

end Divides

theorem order_admitted_iff :
    ¬ (order < 2 ∨ (!isPowerOfTwo order.toNat) = true ∨ q < 3 ∨ (q - 1) % order ≠ 0) ↔
    Divides order q ∧ 3 ≤ q.toNat := by
  have remainder : 3 ≤ q.toNat → ((q - 1) % order = 0 ↔ order.toNat ∣ q.toNat - 1) := by
    intro three
    rw [← UInt64.toNat_inj, UInt64.toNat_mod, toNat_pred (by omega), UInt64.toNat_zero]
    exact Nat.dvd_iff_mod_eq_zero.symm
  rw [not_or, not_or, not_or, not_not, Bool.not_eq_true', Bool.not_eq_false, UInt64.not_lt,
    UInt64.not_lt]
  constructor
  · rintro ⟨two, power, three, whole⟩
    have three : 3 ≤ q.toNat := UInt64.le_iff_toNat_le.mp three
    exact ⟨⟨UInt64.le_iff_toNat_le.mp two, ⟨_, isPowerOfTwo_iff.mp power⟩,
      (remainder three).mp whole⟩, three⟩
  · rintro ⟨⟨two, ⟨k, power⟩, divides⟩, three⟩
    exact ⟨UInt64.le_iff_toNat_le.mpr two, power ▸ isPowerOfTwo_two_pow k,
      UInt64.le_iff_toNat_le.mpr three,
      (remainder three).mpr divides⟩

theorem divides_of_rootOfUnity {root : Word} (found : rootOfUnity order q = .ok root) :
    Divides order q ∧ 3 ≤ q.toNat :=
  order_admitted_iff.mp (guard_eq_ok.mp found).1

section Search
variable (supported : Modulus.isSupported q = true) (prime : q.toNat.Prime) (odd : q.toNat ≠ 2)
    (shape : Divides order q)
include supported prime odd shape

omit supported in
/-- The cofactor and half the order make up half the number of units. -/
theorem pow_half_iff {g : ℕ} (two : 2 ≤ g) (below : g < q.toNat) :
    ((g : ZMod q.toNat) ^ ((q.toNat - 1) / order.toNat)) ^ (order.toNat / 2) = -1 ↔
      ¬ IsSquare (g : ZMod q.toNat) := by
  have := Fact.mk prime
  obtain ⟨k, half, power⟩ := shape.exists_half
  have nonzero : (g : ZMod q.toNat) ≠ 0 := by
    rw [Ne, ZMod.natCast_eq_zero_iff]
    exact Nat.not_dvd_of_pos_of_lt (by omega) below
  have exponents : (q.toNat - 1) / order.toNat * 2 ^ k = q.toNat / 2 := by
    obtain ⟨cofactor, split⟩ := shape.divides
    rw [power] at split ⊢
    rw [split, Nat.mul_div_cancel_left _ (by positivity)]
    rw [Nat.mul_assoc, Nat.mul_comm (2 ^ k)] at split
    omega
  rw [half, ← pow_mul, exponents, minusOne_iff odd nonzero]

theorem tested {g : Word} (two : 2 ≤ g.toNat) (below : g.toNat < q.toNat) :
    ∃ root half, Residue.pow g ((q - 1) / order) q = .ok root ∧
      Residue.pow root (order / 2) q = .ok half ∧
      root = residue (g.toNat ^ ((q.toNat - 1) / order.toNat)) q ∧
      (half = q - 1 ↔ ¬ IsSquare (g.toNat : ZMod q.toNat)) := by
  have positive := Modulus.pos supported
  have halved : (order / 2).toNat = order.toNat / 2 := UInt64.toNat_div order 2
  refine ⟨_, _, Residue.pow_eq_ok supported _ _, Residue.pow_eq_ok supported _ _, ?_, ?_⟩
  · rw [Divides.toNat_cofactor positive]
  · rw [residue_eq_pred_iff positive, Nat.cast_pow, cast_residue _ positive, Nat.cast_pow,
      Divides.toNat_cofactor positive, halved, pow_half_iff prime odd shape two below]

/-- The search ends with the least number in its range that is no square. -/
theorem searchRoot_spec (remaining : ℕ) {g : Word} (two : 2 ≤ g.toNat)
    (inside : g.toNat + remaining ≤ q.toNat) :
    (searchRoot order ((q - 1) / order) q remaining g = .ok none ∧
      ∀ h, g.toNat ≤ h → h < g.toNat + remaining → IsSquare (h : ZMod q.toNat)) ∨
    ∃ h, IsLeast {h | g.toNat ≤ h ∧ h < g.toNat + remaining ∧ ¬ IsSquare (h : ZMod q.toNat)} h ∧
      searchRoot order ((q - 1) / order) q remaining g =
        .ok (some (residue (h ^ ((q.toNat - 1) / order.toNat)) q)) := by
  induction remaining generalizing g with
  | zero => exact .inl ⟨rfl, fun h from_ below => by omega⟩
  | succ remaining ih =>
    obtain ⟨root, half, raised, squared, rfl, decides⟩ :=
      tested supported prime odd shape two (by omega)
    simp only [searchRoot, raised, squared, ok_bind]
    by_cases square : IsSquare (g.toNat : ZMod q.toNat)
    · have next : (g + 1).toNat = g.toNat + 1 := by
        have small := Modulus.lt_two_pow supported
        rw [UInt64.toNat_add, UInt64.toNat_one, Nat.mod_eq_of_lt (by omega)]
      rw [if_neg (mt decides.mp (not_not.mpr square))]
      rcases ih (g := g + 1) (by omega) (by omega) with ⟨ended, squares⟩ | ⟨h, least, ended⟩
      · refine .inl ⟨ended, fun h above below => ?_⟩
        rcases Nat.eq_or_lt_of_le above with rfl | later
        · exact square
        · exact squares h (by omega) (by omega)
      · refine .inr ⟨h, ⟨?_, fun other member => ?_⟩, ended⟩
        · obtain ⟨above, below, none⟩ := least.1
          exact ⟨by omega, by omega, none⟩
        · obtain ⟨above, below, none⟩ := member
          rcases Nat.eq_or_lt_of_le above with rfl | later
          · exact absurd square none
          · exact least.2 ⟨by omega, by omega, none⟩
    · rw [if_pos (decides.mpr square)]
      exact .inr ⟨g.toNat, ⟨⟨Nat.le_refl _, by omega, square⟩, fun other member => member.1⟩, rfl⟩

/-- A root is found exactly where some generator is no square, and it is a power of the least. -/
theorem rootOfUnity_eq_ok_iff {root : Word} :
    rootOfUnity order q = .ok root ↔
      ∃ g, IsLeast (generators q.toNat) g ∧
        root = residue (g ^ ((q.toNat - 1) / order.toNat)) q := by
  have two := prime.two_le
  have admitted := order_admitted_iff.mpr ⟨shape, show 3 ≤ q.toNat by omega⟩
  have range : {h | 2 ≤ h ∧ h < 2 + (min q.toNat 65536 - 2) ∧ ¬ IsSquare (h : ZMod q.toNat)} =
      generators q.toNat := by
    have last : 2 + (min q.toNat 65536 - 2) = min q.toNat 65536 := by omega
    rw [last]
    rfl
  have searched :=
    searchRoot_spec supported prime odd shape (min q.toNat 65536 - 2) (g := 2) (Nat.le_refl 2)
    (show 2 + _ ≤ _ by omega)
  rw [rootOfUnity, guard_eq_ok, and_iff_right admitted]
  rcases searched with ⟨ended, squares⟩ | ⟨h, least, ended⟩
  · simp only [ended, lift_checked_ok, ok_bind]
    refine ⟨nofun, ?_⟩
    rintro ⟨g, least, _⟩
    rw [← range] at least
    obtain ⟨above, below, none⟩ := least.1
    exact absurd (squares g above below) none
  · simp only [ended, lift_checked_ok, ok_bind]
    have least : IsLeast (generators q.toNat) h := range ▸ least
    constructor
    · intro found
      cases found
      exact ⟨h, least, rfl⟩
    · rintro ⟨g, other, rfl⟩
      rw [other.unique least]
      rfl

theorem exists_rootOfUnity_iff : (∃ root, rootOfUnity order q = .ok root) ↔
    (generators q.toNat).Nonempty := by
  constructor
  · rintro ⟨root, found⟩
    obtain ⟨g, least, _⟩ := (rootOfUnity_eq_ok_iff supported prime odd shape).mp found
    exact ⟨g, least.1⟩
  · intro nonempty
    have least : IsLeast (generators q.toNat) (sInf (generators q.toNat)) :=
      ⟨Nat.sInf_mem nonempty, fun _ => Nat.sInf_le⟩
    exact ⟨_, (rootOfUnity_eq_ok_iff supported prime odd shape).mpr ⟨_, least, rfl⟩⟩

variable {root : Word} (found : rootOfUnity order q = .ok root)
include found

theorem minusOne_of_rootOfUnity :
    root < q ∧ (root.toNat : ZMod q.toNat) ^ (order.toNat / 2) = -1 := by
  have positive := Modulus.pos supported
  obtain ⟨g, least, rfl⟩ := (rootOfUnity_eq_ok_iff supported prime odd shape).mp found
  obtain ⟨two, below, other⟩ := least.1
  refine ⟨residue_lt _ positive, ?_⟩
  rw [cast_residue _ positive, Nat.cast_pow]
  exact (pow_half_iff prime odd shape two (lt_of_lt_of_le below (min_le_left _ _))).mpr other

/-- The order of a root that is found is the one that was asked for. -/
theorem orderOf_rootOfUnity : orderOf (root.toNat : ZMod q.toNat) = order.toNat := by
  obtain ⟨_, minusOne⟩ := minusOne_of_rootOfUnity supported prime odd shape found
  obtain ⟨k, half, power⟩ := shape.exists_half
  have notTwo : q ≠ 2 := fun same => odd (congrArg UInt64.toNat same)
  rw [half] at minusOne
  rw [orderOf_of_minusOne (RootTables.neg_one_ne_one supported notTwo) minusOne, power]

end Search
end BankedRing.Prime
