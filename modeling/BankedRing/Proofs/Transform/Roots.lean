import BankedRing.Proofs.Transform.Evaluation
import Mathlib.FieldTheory.Finite.Basic
import Mathlib.GroupTheory.OrderOfElement

/-! Which roots are accepted. A root whose power by the length is `-1` has twice the length as its
order wherever `-1` and `1` differ, that is under every modulus but two; the length has an inverse
under the odd moduli only. What is not accepted is refused with an error. -/
namespace BankedRing

theorem orderOf_of_minusOne {R : Type*} [Ring R] {x : R} {bits : ℕ} (distinct : (-1 : R) ≠ 1)
    (minusOne : x ^ 2 ^ bits = -1) : orderOf x = 2 * 2 ^ bits := by
  have once : ¬ x ^ 2 ^ bits = 1 := by rwa [minusOne]
  have twice : x ^ 2 ^ (bits + 1) = 1 := by rw [pow_succ, pow_mul, minusOne, neg_one_sq]
  rw [orderOf_eq_prime_pow once twice, pow_succ']

namespace RootTables
variable {root m : Word} {n bits : ℕ} {tables : RootTables}

theorem neg_one_ne_one (supported : Modulus.isSupported m = true) (notTwo : m ≠ 2) :
    (-1 : ZMod m.toNat) ≠ 1 := by
  have two := Modulus.two_le supported
  have other : m.toNat ≠ 2 := fun same => notTwo (UInt64.toNat_inj.mp same)
  have : Fact (2 < m.toNat) := ⟨by omega⟩
  exact ZMod.neg_one_ne_one

/-- An order divides the number of units, so the length stays far below the width of a word. -/
theorem length_lt_of_minusOne (supported : Modulus.isSupported m = true) (notTwo : m ≠ 2)
    (minusOne : (root.toNat : ZMod m.toNat) ^ 2 ^ bits = -1) : 2 ^ bits < 2 ^ 59 := by
  have positive := Modulus.pos supported
  have coprime := coprime_of_minusOne (Nat.two_pow_pos bits) minusOne
  have unit : (root.toNat : ZMod m.toNat) ^ m.toNat.totient = 1 := by
    have congruent := (ZMod.natCast_eq_natCast_iff _ _ _).mpr (Nat.ModEq.pow_totient coprime)
    rwa [Nat.cast_pow, Nat.cast_one] at congruent
  have divides := orderOf_dvd_of_pow_eq_one unit
  rw [orderOf_of_minusOne (neg_one_ne_one supported notTwo) minusOne] at divides
  have bounded := Nat.le_of_dvd (Nat.totient_pos.mpr positive) divides
  have units := Nat.totient_le m.toNat
  have small := Modulus.lt_two_pow supported
  omega

theorem refuseRoot_admits (half : n < 2 ^ 63) : Admits (·.isTrap = false)
    (refuseRoot root n m) := by
  have exponent : (UInt64.ofNat n).toNat = n :=
    UInt64.toNat_ofNat_of_lt' (Nat.lt_trans half (by decide))
  have product : (2 : Word).toNat * (UInt64.ofNat n).toNat < UInt64.size := by
    show 2 * (UInt64.ofNat n).toNat < 2 ^ 64
    omega
  rw [refuseRoot, Checked.mul_eq_ok product, lift_checked_ok, ok_bind]
  exact .error rfl

/-- Once a root has passed its checks, its tables are put together. -/
theorem exists_assembled (supported : Modulus.isSupported m = true) (notTwo : m ≠ 2)
    (short : bits < 64) (raised : Residue.pow root (UInt64.ofNat (2 ^ bits)) m = .ok (m - 1)) :
    ∃ tables, (do
      let rootInverse ← Residue.inverse root m
      Checked.buffer (8 * 2 ^ bits)
      let lengthInverse ← Residue.inverse (UInt64.ofNat (2 ^ bits)) m
      return {
        modulus := m, root
        forward := ← powers root (2 ^ bits) m
        inverse := ← powers rootInverse (2 ^ bits) m
        lengthInverse := Twiddle.ofFactor lengthInverse m } : Except Error RootTables) =
          .ok tables := by
  have small := length_lt_of_minusOne supported notTwo (minusOne_of_pow supported short raised)
  have two := Modulus.two_le supported
  have narrow : m.toNat < 2 ^ 63 := Nat.lt_trans (Modulus.lt_two_pow supported) (by decide)
  obtain ⟨rootInverse, inverted, _⟩ := Residue.inverse_eq_ok two narrow root
  obtain ⟨lengthInverse, lengthInverted, _⟩ :=
    Residue.inverse_eq_ok two narrow (UInt64.ofNat (2 ^ bits))
  obtain ⟨forward, listed, _⟩ := powers_eq_ok supported short root
  obtain ⟨inverse, listedInverse, _⟩ := powers_eq_ok supported short rootInverse
  have fits : Checked.buffer (8 * 2 ^ bits) = .ok () := Checked.buffer_eq_ok (by omega)
  rw [inverted, lift_checked_ok, ok_bind, fits, lift_checked_ok, ok_bind, lengthInverted,
    lift_checked_ok, ok_bind,
    listed, lift_checked_ok, ok_bind, listedInverse, lift_checked_ok, ok_bind]
  exact ⟨_, rfl⟩

theorem ofRoot_total (supported : Modulus.isSupported m = true) (notTwo : m ≠ 2) (short : bits < 64)
    (two : 2 ≤ 2 ^ bits) (reduced : root < m)
    (minusOne : (root.toNat : ZMod m.toNat) ^ 2 ^ bits = -1) :
    ∃ tables, ofRoot root (2 ^ bits) m = .ok tables := by
  have positive := Modulus.pos supported
  have nonzero : root ≠ 0 := by
    rintro rfl
    have zero : ((0 : Word).toNat : ZMod m.toNat) ^ 2 ^ bits = 0 := by
      rw [UInt64.toNat_zero, Nat.cast_zero]
      exact zero_pow (Nat.two_pow_pos bits).ne'
    rw [zero] at minusOne
    have : Fact (1 < m.toNat) := ⟨Modulus.two_le supported⟩
    exact neg_ne_zero.mpr one_ne_zero minusOne.symm
  have raised : Residue.pow root (UInt64.ofNat (2 ^ bits)) m = .ok (m - 1) := by
    rw [Residue.pow_eq_ok supported, toNat_length short, Except.ok.injEq,
      residue_eq_pred_iff positive, Nat.cast_pow]
    exact minusOne
  obtain ⟨tables, assembled⟩ := exists_assembled supported notTwo short raised
  have admitted : ¬ (!Modulus.isSupported m) = true := by simp [supported]
  have shape : ¬ (2 ^ bits < 2 ∨ (!isPowerOfTwo (2 ^ bits)) = true) := by
    rw [isPowerOfTwo_two_pow]
    exact not_or.mpr ⟨Nat.not_lt.mpr two, by simp⟩
  have range : ¬ (root = 0 ∨ m ≤ root) := not_or.mpr ⟨nonzero, UInt64.not_le.mpr reduced⟩
  refine ⟨tables, ?_⟩
  rw [ofRoot, if_neg admitted, if_neg shape, if_neg range, raised, lift_checked_ok, ok_bind,
    if_neg (not_not.mpr rfl)]
  exact assembled

/-- Under every modulus but two, tables are built or refused without a trap. -/
theorem ofRoot_admits (word : n < 2 ^ 64) (inside : n ≠ 2 ^ 63) (notTwo : m ≠ 2) :
    Admits (·.isTrap = false) (ofRoot root n m) := by
  refine .guard rfl fun admitted => .guard rfl fun shape => ?_
  have supported : Modulus.isSupported m = true := by simpa using admitted
  obtain ⟨bits, rfl⟩ : ∃ bits, n = 2 ^ bits :=
    ⟨n.log2, isPowerOfTwo_iff.mp (by simpa using (not_or.mp shape).2)⟩
  have short : bits < 64 := (Nat.pow_lt_pow_iff_right (by decide)).mp word
  have half : 2 ^ bits < 2 ^ 63 := Nat.pow_lt_pow_right (by decide) (by
    rcases Nat.lt_or_eq_of_le (Nat.le_of_lt_succ short) with below | rfl
    · exact below
    · exact absurd rfl inside)
  refine .refusal (refuseRoot_ne_ok _ _ _) (refuseRoot_admits half) fun _ => ?_
  have computed := Residue.pow_eq_ok supported root (UInt64.ofNat (2 ^ bits))
  rw [computed, lift_checked_ok, ok_bind]
  refine .refusal (refuseRoot_ne_ok _ _ _) (refuseRoot_admits half) fun raised => ?_
  rw [not_not.mp raised] at computed
  obtain ⟨tables, assembled⟩ := exists_assembled supported notTwo short computed
  rw [assembled]
  exact .ok tables

theorem two_le_length (built : ofRoot root n m = .ok tables) : 2 ≤ n := by
  obtain ⟨_, built⟩ := guard_eq_ok.mp built
  obtain ⟨shape, _⟩ := guard_eq_ok.mp built
  exact Nat.not_lt.mp (not_or.mp shape).1

theorem orderOf_root (built : ofRoot root n m = .ok tables) (notTwo : m ≠ 2) :
    orderOf (root.toNat : ZMod m.toNat) = 2 * n := by
  obtain ⟨supported, bits, short, rfl, raised, _⟩ := ofRoot_eq_ok built
  exact orderOf_of_minusOne (neg_one_ne_one supported notTwo)
    (minusOne_of_pow supported (by omega) raised)

/-- The inverse of the length, which is zero where there is none. -/
theorem lengthInverse_mul (built : ofRoot root n m = .ok tables) :
    (m.toNat % 2 = 1 → n * tables.lengthInverse.factor.toNat % m.toNat = 1) ∧
      (m.toNat % 2 = 0 → tables.lengthInverse.factor = 0 ∧ ∀ r, n * r % m.toNat ≠ 1) := by
  have two := two_le_length built
  obtain ⟨supported, bits, short, rfl, _, _, computed, _, lengthInverted, _, _, _, _, rfl⟩ :=
    ofRoot_eq_ok built
  have narrow : m.toNat < 2 ^ 63 := Nat.lt_trans (Modulus.lt_two_pow supported) (by decide)
  obtain ⟨r, inverted, _, unit, none⟩ :=
    Residue.inverse_eq_ok (Modulus.two_le supported) narrow (UInt64.ofNat (2 ^ bits))
  cases inverted.symm.trans lengthInverted
  rw [toNat_length (by omega)] at unit none
  constructor
  · intro odd
    exact unit (Nat.Coprime.pow_left bits (Nat.coprime_two_left.mpr (Nat.odd_iff.mpr odd)))
  · intro even
    have halves : 2 ∣ 2 ^ bits := dvd_pow_self 2 (by rintro rfl; simp at two)
    have common : 2 ∣ m.toNat := Nat.dvd_of_mod_eq_zero even
    refine ⟨none fun coprime => ?_, fun r product => ?_⟩
    · have divides := Nat.dvd_gcd halves common
      rw [coprime] at divides
      exact absurd divides (by decide)
    · have parity := Nat.mod_mod_of_dvd (2 ^ bits * r) common
      rw [product, Nat.mod_eq_zero_of_dvd (halves.mul_right r)] at parity
      cases parity

theorem refuseRoot_widest (root m : Word) :
    refuseRoot root (2 ^ 63) m = .error (.trapped .overflow) := by
  have wide : Checked.mul 2 (UInt64.ofNat (2 ^ 63)) = .error .overflow := by decide
  rw [refuseRoot, wide]
  rfl

/-- The order that would have to be reported for the longest length does not fit a word. -/
theorem ofRoot_widest (supported : Modulus.isSupported m = true) (notTwo : m ≠ 2) :
    ofRoot root (2 ^ 63) m = .error (.trapped .overflow) := by
  have admitted : ¬ (!Modulus.isSupported m) = true := by simp [supported]
  have shape : ¬ ((2 ^ 63 : ℕ) < 2 ∨ (!isPowerOfTwo (2 ^ 63)) = true) := by
    rw [isPowerOfTwo_two_pow 63]
    decide
  rw [ofRoot, if_neg admitted, if_neg shape, refuseRoot_widest]
  split
  · rfl
  · have computed := Residue.pow_eq_ok supported root (UInt64.ofNat (2 ^ 63))
    rw [computed, lift_checked_ok, ok_bind]
    split
    · rfl
    · rename_i raised
      rw [not_not.mp raised] at computed
      have small :=
        length_lt_of_minusOne supported notTwo (minusOne_of_pow supported (by decide) computed)
      exact absurd small (by decide)

/-- Accepted roots are usable: under every modulus but two the order is twice the length, and under
an odd modulus the length has an inverse and the inverse transform undoes the forward one. What is
not accepted is refused with an error, except that the refusal of the longest length traps. -/
theorem ofRoot_usable (word : n < 2 ^ 64) (notTwo : m ≠ 2) :
    (∀ tables, ofRoot root n m = .ok tables →
      orderOf (root.toNat : ZMod m.toNat) = 2 * n ∧
      (m.toNat % 2 = 1 → n * tables.lengthInverse.factor.toNat % m.toNat = 1 ∧
        ∀ values : Array Word, values.size = n → (∀ x ∈ values, x < m) → ∃ forwarded,
          forwardInPlace tables values = .ok () forwarded ∧
          inverseInPlace tables forwarded = .ok () values) ∧
      (m.toNat % 2 = 0 → tables.lengthInverse.factor = 0 ∧ ∀ r, n * r % m.toNat ≠ 1)) ∧
    (n ≠ 2 ^ 63 → (∀ tables, ofRoot root n m ≠ .ok tables) →
      ∃ e, ofRoot root n m = .error e ∧ e.isTrap = false) ∧
    (n = 2 ^ 63 → Modulus.isSupported m = true →
      ofRoot root n m = .error (.trapped .overflow)) := by
  refine ⟨?_, ?_, ?_⟩
  · intro tables built
    obtain ⟨unit, none⟩ := lengthInverse_mul built
    refine ⟨orderOf_root built notTwo, fun odd => ⟨unit odd, fun values size reduced => ?_⟩, none⟩
    obtain ⟨rfl, bits, rfl, psi, psi', faithful⟩ := ofRoot_faithful odd built
    obtain ⟨values⟩ := values
    obtain ⟨forwarded, _, ranForward, ranBack, _⟩ :=
      inPlace_inverse faithful size fun x member => reduced x (List.mem_toArray.mpr member)
    exact ⟨⟨forwarded⟩, ranForward, ranBack⟩
  · intro inside refused
    cases outcome : ofRoot root n m with
    | ok tables => exact absurd outcome (refused tables)
    | error e => exact ⟨e, rfl, ofRoot_admits word inside notTwo e outcome⟩
  · rintro rfl supported
    exact ofRoot_widest supported notTwo

theorem ofRoot_usable_four :
    (∃ tables, ofRoot 2 4 17 = .ok tables ∧
      orderOf ((2 : Word).toNat : ZMod (17 : Word).toNat) = 2 * 4 ∧
      4 * tables.lengthInverse.factor.toNat % 17 = 1) ∧
      ∃ e, ofRoot 3 2 17 = .error e ∧ e.isTrap = false := by
  obtain ⟨tables, built⟩ := four_accepted
  obtain ⟨order, unit, _⟩ := (ofRoot_usable (by decide) (by decide)).1 tables built
  have refused : ∀ tables, ofRoot 3 2 17 ≠ .ok tables := by
    have none : (ofRoot 3 2 17).toOption = none := by decide +kernel
    intro tables accepted
    rw [accepted] at none
    cases none
  exact ⟨⟨tables, built, order, (unit (by decide)).1⟩,
    (ofRoot_usable (by decide) (by decide)).2.1 (by decide) refused⟩

/-- Modulo two `-1` is `1`, so `1` is accepted; but its order is one, and two has no inverse. -/
theorem ofRoot_accepts_one :
    (∃ tables, ofRoot 1 2 2 = .ok tables ∧ tables.lengthInverse.factor = 0) ∧
      orderOf ((1 : Word).toNat : ZMod (2 : Word).toNat) ≠ 2 * 2 ∧
      ∀ r, 2 * r % (2 : Word).toNat ≠ 1 := by
  refine ⟨?_, ?_, fun r => ?_⟩
  · obtain ⟨tables, built⟩ : ∃ tables, ofRoot 1 2 2 = .ok tables :=
      exists_ok_of_toOption (by decide +kernel)
    exact ⟨tables, built, ((lengthInverse_mul built).2 rfl).1⟩
  · rw [UInt64.toNat_one, Nat.cast_one, orderOf_one]
    decide
  · rw [show (2 : Word).toNat = 2 from rfl, Nat.mul_mod_right]
    decide

end RootTables
end BankedRing
