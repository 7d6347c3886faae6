import BankedRing.Prime.Test
import BankedRing.Proofs.Outcome
import BankedRing.Proofs.Prime.Strong
import BankedRing.Proofs.Residue.Arithmetic

/-! The primality test decides. Its products, powers and squarings are exact for every word, so
that it runs the strong probable prime test to each base; what it accepts is a prime or a
composite number that no base tells from one. -/
namespace BankedRing.Prime
variable {n : Word}

section Arithmetic

theorem mulMod_eq_ok (positive : 0 < n.toNat) (a b : Word) :
    mulMod a b n = .ok (residue (a.toNat * b.toNat) n) := by
  have product : a.toNat * b.toNat < 2 ^ 128 := by
    have bound := Nat.mul_lt_mul'' a.toNat_lt b.toNat_lt
    rwa [← Nat.pow_add] at bound
  have wide : ∀ w : Word, w.toNat % 2 ^ 128 = w.toNat := fun w =>
    Nat.mod_eq_of_lt (Nat.lt_trans w.toNat_lt (by decide))
  have word := Nat.lt_trans (Nat.mod_lt (a.toNat * b.toNat) positive) n.toNat_lt
  rw [mulMod, if_neg (ne_zero_of_pos positive)]
  refine congrArg Except.ok (UInt64.toNat_inj.mp ?_)
  rw [toNat_residue _ positive, UInt64.toNat, BitVec.toNat_setWidth, BitVec.toNat_umod,
    BitVec.toNat_mul,
    BitVec.toNat_setWidth, BitVec.toNat_setWidth, BitVec.toNat_setWidth, UInt64.toNat_toBitVec,
    UInt64.toNat_toBitVec, UInt64.toNat_toBitVec, wide, wide, wide, Nat.mod_eq_of_lt product,
    Nat.mod_eq_of_lt word]

theorem toNat_half (x : Word) : (x >>> 1).toNat = x.toNat / 2 := by
  rw [UInt64.toNat_shiftRight, UInt64.toNat_one, Nat.shiftRight_eq_div_pow]

theorem odd_iff (x : Word) : x &&& 1 = 1 ↔ x.toNat % 2 = 1 := by
  rw [← UInt64.toNat_inj, UInt64.toNat_and, UInt64.toNat_one, Nat.and_one_is_mod]

theorem residue_square (positive : 0 < n.toNat) (power base k : ℕ) :
    residue (power * (residue (base * base) n).toNat ^ k) n =
      residue (power * base ^ (2 * k)) n := by
  apply residue_congr
  rw [toNat_residue _ positive, Nat.pow_mul, Nat.pow_two]
  exact ((Nat.mod_modEq (base * base) n.toNat).pow k).mul_left power

/-- The power so far times what is left of the power of the base stays the same. -/
theorem powLoop_eq_ok (positive : 0 < n.toNat) (power base exponent : Word) (reduced : power < n) :
    powLoop n power base exponent =
      .ok (residue (power.toNat * base.toNat ^ exponent.toNat) n) := by
  induction power, base, exponent using powLoop.induct n with
  | case1 power base =>
    rw [powLoop, dif_pos rfl, UInt64.toNat_zero, Nat.pow_zero, Nat.mul_one, residue_toNat reduced]
    rfl
  | case2 power base exponent nonzero odd ih =>
    have split : exponent.toNat = 2 * (exponent.toNat / 2) + 1 := by
      have := (odd_iff exponent).mp odd
      omega
    rw [powLoop, dif_neg nonzero, if_pos odd, mulMod_eq_ok positive, ok_bind]
    simp only [mulMod_eq_ok positive, ok_bind]
    rw [ih _ _ (residue_lt _ positive), toNat_half, residue_square positive]
    apply congrArg Except.ok
    apply residue_congr
    conv_rhs => rw [split, Nat.pow_succ', ← Nat.mul_assoc]
    rw [toNat_residue _ positive]
    exact (Nat.mod_modEq _ _).mul_right _
  | case3 power base exponent nonzero even ih =>
    have split : exponent.toNat = 2 * (exponent.toNat / 2) := by
      have := mt (odd_iff exponent).mpr even
      omega
    rw [powLoop, dif_neg nonzero, if_neg even, pure_bind]
    simp only [mulMod_eq_ok positive, ok_bind]
    rw [ih _ _ reduced, toNat_half, residue_square positive, ← split]

theorem powMod_eq_ok (positive : 0 < n.toNat) (base exponent : Word) :
    powMod base exponent n = .ok (residue (base.toNat ^ exponent.toNat) n) := by
  rw [powMod, rem_eq_ok positive, ok_bind, rem_eq_ok positive, ok_bind,
    powLoop_eq_ok positive _ _ _ (residue_lt _ positive)]
  apply congrArg Except.ok
  apply residue_congr
  rw [toNat_residue _ positive, toNat_residue _ positive]
  exact ((Nat.mod_modEq _ _).mul ((Nat.mod_modEq _ _).pow _)).trans
    (by rw [UInt64.toNat_one, Nat.one_mul])

end Arithmetic

section Factors

theorem twos_two_pow_mul (s : ℕ) {d : ℕ} (odd : d % 2 = 1) : twos (2 ^ s * d) = s := by
  induction s with
  | zero =>
    rw [Nat.pow_zero, Nat.one_mul, twos, if_neg (by omega)]
  | succ s ih =>
    have double : 2 ^ (s + 1) * d = 2 * (2 ^ s * d) := by rw [Nat.pow_succ', Nat.mul_assoc]
    have positive : 0 < 2 ^ s * d := Nat.mul_pos (Nat.two_pow_pos s) (by omega)
    rw [double, twos, if_pos (by omega), Nat.mul_div_cancel_left _ Nat.two_pos, ih]

theorem exists_split {x : Word} (nonzero : x.toNat ≠ 0) :
    ∃ s d : ℕ, trailingZeros x = s ∧ x.toNat = 2 ^ s * d ∧ d % 2 = 1 ∧
      ∃ odd : Word, Checked.shiftRight x s = .ok odd ∧ odd.toNat = d := by
  obtain ⟨s, d, odd, split⟩ := Nat.exists_eq_two_pow_mul_odd nonzero
  have odd := Nat.odd_iff.mp odd
  have below : 2 ^ s < 2 ^ 64 := by
    have bound := x.toNat_lt
    rw [split] at bound
    exact Nat.lt_of_le_of_lt (Nat.le_mul_of_pos_right _ (by omega)) bound
  have short : s < 64 := (Nat.pow_lt_pow_iff_right (by decide)).mp below
  refine ⟨s, d, ?_, split, odd, x >>> s.toUInt64, if_pos short, ?_⟩
  · rw [trailingZeros, if_neg (fun zero => nonzero (by rw [zero]; rfl)), split,
      twos_two_pow_mul s odd]
  · rw [DoubleWord.toNat_shiftRight_word _ short, split,
      Nat.mul_div_cancel_left _ (Nat.two_pow_pos s)]

theorem exists_pred_split (two : 2 ≤ n.toNat) (odd : n.toNat % 2 ≠ 0) :
    ∃ (last factor : Word) (s : ℕ), Checked.sub n 1 = .ok last ∧ trailingZeros last = s + 1 ∧
      Checked.shiftRight last (s + 1) = .ok factor ∧ last.toNat = n.toNat - 1 ∧
      last.toNat = 2 ^ (s + 1) * factor.toNat ∧ factor.toNat % 2 = 1 := by
  have one : (1 : Word).toNat ≤ n.toNat := by
    rw [UInt64.toNat_one]
    omega
  have less : (n - 1).toNat = n.toNat - 1 :=
    UInt64.toNat_sub_of_le _ _ (UInt64.le_iff_toNat_le.mpr one)
  obtain ⟨s, d, zeros, split, isOdd, factor, shifted, rfl⟩ := exists_split (x := n - 1) (by omega)
  obtain ⟨s, rfl⟩ : ∃ r, s = r + 1 := Nat.exists_eq_succ_of_ne_zero (by
    rintro rfl
    rw [pow_zero, one_mul] at split
    omega)
  exact ⟨n - 1, factor, s, Checked.sub_eq_ok one, zeros, shifted, less, split, isOdd⟩

end Factors

section Bases

theorem exists_base_iff {p : ℕ} : (∃ a ∈ bases, a.toNat = p) ↔ p.Prime ∧ p ≤ 37 := by
  constructor
  · rintro ⟨a, member, rfl⟩
    simp only [bases, List.mem_cons, List.not_mem_nil, or_false] at member
    rcases member with rfl | rfl | rfl | rfl | rfl | rfl | rfl | rfl | rfl | rfl | rfl | rfl <;>
      simp <;> norm_num
  · rintro ⟨prime, small⟩
    interval_cases p <;> first | (revert prime; norm_num; done) | decide

theorem prime_of_base {a : Word} (member : a ∈ bases) : a.toNat.Prime :=
  (exists_base_iff.mp ⟨a, member, rfl⟩).1

theorem residue_eq_iff (positive : 0 < n.toNat) {x : Word} (reduced : x < n) (k : ℕ) :
    residue k n = x ↔ k ≡ x.toNat [MOD n.toNat] := by
  rw [← UInt64.toNat_inj, toNat_residue _ positive, Nat.ModEq,
    Nat.mod_eq_of_lt (UInt64.lt_iff_toNat_lt.mp reduced)]

theorem residue_pow_modEq (positive : 0 < n.toNat) (k e : ℕ) :
    (residue k n).toNat ^ e ≡ k ^ e [MOD n.toNat] := by
  rw [toNat_residue _ positive]
  exact (Nat.mod_modEq k n.toNat).pow e

theorem squaresReach_decides (positive : 0 < n.toNat) {last : Word} (reduced : last < n)
    (squarings : ℕ) (x : Word) :
    Decides (squaresReach n last squarings x)
      (∃ r < squarings, x.toNat ^ 2 ^ (r + 1) ≡ last.toNat [MOD n.toNat]) := by
  induction squarings generalizing x with
  | zero => exact .ok (by simp)
  | succ squarings ih =>
    rw [squaresReach, mulMod_eq_ok positive, ok_bind]
    refine (ih _).orElse.congr ?_
    rw [Nat.exists_lt_succ_left, residue_eq_iff positive reduced]
    refine or_congr (by rw [Nat.zero_add, pow_one, pow_two]) (exists_congr fun r =>
      and_congr_right fun _ => ?_)
    have square : (residue (x.toNat * x.toNat) n).toNat ^ 2 ^ (r + 1) ≡
        x.toNat ^ 2 ^ (r + 1 + 1) [MOD n.toNat] := by
      rw [pow_succ' 2 (r + 1), pow_mul, pow_two]
      exact residue_pow_modEq positive _ _
    exact ⟨square.symm.trans, square.trans⟩

/-- One round is the strong probable prime test to its base. -/
theorem passes_decides {last odd : Word} {s : ℕ} (positive : 0 < n.toNat)
    (less : last.toNat = n.toNat - 1) (split : last.toNat = 2 ^ (s + 1) * odd.toNat)
    (isOdd : odd.toNat % 2 = 1) (base : Word) :
    Decides (passes n last odd (s + 1) base) (IsStrongProbablePrime n.toNat base.toNat) := by
  have two : 2 ≤ last.toNat := by
    rw [split, pow_succ', mul_assoc]
    exact Nat.le_mul_of_pos_right 2 (Nat.mul_pos (Nat.two_pow_pos s) (by omega))
  have below : last < n := UInt64.lt_iff_toNat_lt.mpr (by omega)
  have one : (1 : Word) < n := UInt64.lt_iff_toNat_lt.mpr (by rw [UInt64.toNat_one]; omega)
  rw [passes, powMod_eq_ok positive, ok_bind]
  refine (squaresReach_decides positive below _ _).orElse.congr ?_
  rw [strong_iff (less.symm.trans split) isOdd, residue_eq_iff positive one,
    residue_eq_iff positive below,
    Nat.exists_lt_succ_left, or_assoc, less, UInt64.toNat_one, Nat.add_sub_cancel,
    pow_zero, one_mul]
  refine or_congr_right (or_congr_right (exists_congr fun r => and_congr_right fun _ => ?_))
  have square := residue_pow_modEq positive (base.toNat ^ odd.toNat) (2 ^ (r + 1))
  rw [← pow_mul, Nat.mul_comm] at square
  exact ⟨square.symm.trans, square.trans⟩

end Bases

section Decision

theorem mod_eq_zero_iff (p : Word) : n % p = 0 ↔ p.toNat ∣ n.toNat := by
  rw [← UInt64.toNat_inj, UInt64.toNat_mod, UInt64.toNat_zero, Nat.dvd_iff_mod_eq_zero]

/-- A number with a factor among the bases is accepted where it is that factor. -/
theorem eq_base_iff {p : Word} (member : p ∈ bases) (factor : p.toNat ∣ n.toNat) :
    n = p ↔ n.toNat.Prime ∨ IsStrongPseudoprime n.toNat := by
  obtain ⟨prime, small⟩ := exists_base_iff.mp ⟨p, member, rfl⟩
  constructor
  · rintro rfl
    exact .inl prime
  · rintro (whole | pseudoprime)
    · exact UInt64.toNat_inj.mp ((Nat.prime_dvd_prime_iff_eq prime whole).mp factor).symm
    · exact absurd (pseudoprime.strong _ prime small) (not_strong_of_dvd prime factor)

/-- A number without a factor among the bases is accepted where it passes all rounds. -/
theorem all_strong_iff (two : 2 ≤ n.toNat) (free : ∀ a ∈ bases, ¬ a.toNat ∣ n.toNat) :
    (∀ a ∈ bases, IsStrongProbablePrime n.toNat a.toNat) ↔ n.toNat.Prime ∨
    IsStrongPseudoprime n.toNat := by
  constructor
  · intro all
    by_cases prime : n.toNat.Prime
    · exact .inl prime
    · refine .inr ⟨two, prime, fun p base small => ?_⟩
      obtain ⟨a, member, rfl⟩ := exists_base_iff.mpr ⟨base, small⟩
      exact all a member
  · rintro (prime | pseudoprime) a member
    · refine strong_of_prime prime fun divides => free a member ?_
      rw [(Nat.prime_dvd_prime_iff_eq prime (prime_of_base member)).mp divides]
    · obtain ⟨base, small⟩ := exists_base_iff.mp ⟨a, member, rfl⟩
      exact pseudoprime.strong _ base small

/-- What is accepted are the primes and the composite numbers that no base tells from one. -/
theorem isPrime_decides (n : Word) :
    Decides (isPrime n) (n.toNat.Prime ∨ IsStrongPseudoprime n.toNat) := by
  rw [isPrime]
  split
  · rename_i small
    have small : n.toNat < 2 := UInt64.lt_iff_toNat_lt.mp small
    refine .ok ⟨nofun, ?_⟩
    rintro (prime | pseudoprime)
    · exact absurd prime.two_le (Nat.not_le.mpr small)
    · exact absurd pseudoprime.two_le (Nat.not_le.mpr small)
  · rename_i large
    have two : 2 ≤ n.toNat := UInt64.le_iff_toNat_le.mp (UInt64.not_lt.mp large)
    split
    · rename_i p found
      have factor : n % p = 0 := by simpa using List.find?_some found
      exact .ok (decide_eq_true_iff.trans
        (eq_base_iff (List.mem_of_find?_eq_some found) ((mod_eq_zero_iff p).mp factor)))
    · rename_i none
      have free : ∀ a ∈ bases, ¬ a.toNat ∣ n.toNat := fun a member divides =>
        List.find?_eq_none.mp none a member (decide_eq_true ((mod_eq_zero_iff a).mpr divides))
      -- Two is a base, so the number is odd.
      have odd : n.toNat % 2 ≠ 0 := fun even => free 2 (by decide) (Nat.dvd_of_mod_eq_zero even)
      obtain ⟨last, factor, s, below, zeros, shifted, less, split, isOdd⟩ :=
        exists_pred_split two odd
      simp only [below, zeros, shifted, ok_bind]
      have rounds :=
        Decides.allM fun a (_ : a ∈ bases) => passes_decides (by omega) less split isOdd a
      exact rounds.congr (all_strong_iff two free)

/-- If the bases tell every composite number below a bound from a prime, then the test decides
primality there. For the word radix as the bound that is every word. -/
theorem isPrime_exact {bound : ℕ} (published : ∀ c < bound, ¬ IsStrongPseudoprime c) (n : Word)
    (inside : n.toNat < bound) : isPrime n = .ok (decide n.toNat.Prime) := by
  obtain ⟨answer, tested, accepted⟩ := isPrime_decides n
  have exact : answer = true ↔ n.toNat.Prime := accepted.trans (or_iff_left (published _ inside))
  rw [tested, Bool.eq_iff_iff.mpr (exact.trans decide_eq_true_iff.symm)]

/-- Both numbers have no factor among the bases; the second is the square of 41. -/
theorem isPrime_exact_square :
    (∀ c < 1682, ¬ IsStrongPseudoprime c) ∧ isPrime 1669 = .ok true ∧ isPrime 1681 = .ok false := by
  have published : ∀ c < 1682, ¬ IsStrongPseudoprime c := by
    intro c below pseudoprime
    have large := pseudoprime.large
    obtain rfl : c = 1681 := by omega
    have round :=
      (strong_iff (s := 4) (d := 105) rfl rfl).mp (pseudoprime.strong 2 Nat.prime_two (by decide))
    exact absurd round (by decide +kernel)
  have prime : (1669 : Word).toNat.Prime := by
    show Nat.Prime 1669
    norm_num
  have composite : ¬ (1681 : Word).toNat.Prime := by
    show ¬ Nat.Prime 1681
    norm_num
  have first := isPrime_exact published 1669 (by decide)
  have second := isPrime_exact published 1681 (by decide)
  rw [decide_eq_true prime] at first
  rw [decide_eq_false composite] at second
  exact ⟨published, first, second⟩

/-- The largest prime below the word radix, and a composite number that passes the rounds to the
first four bases. -/
example : isPrime 18446744073709551557 = .ok true ∧ isPrime 3215031751 = .ok false := by
  decide +kernel

end Decision

end BankedRing.Prime
