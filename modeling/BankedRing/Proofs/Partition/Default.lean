import BankedRing.Proofs.Partition
import Mathlib.Algebra.Ring.Nat

/-! The default split. The units for each tower are rounded down to a power of two, no larger
than the ring, and at least one unit goes to every tower. -/
namespace BankedRing.Partition
variable {units towers k : Nat}

/-- The units that each tower gets before they are rounded down to a power of two. -/
def perTower (units towers ringDimension : Nat) : Nat :=
  max (min (units / max towers 1) ringDimension) 1

/-- The split is the power of two that its units round down to. -/
theorem defaultSplit_rounds (units towers ringDimension : Nat) :
    ∃ j, defaultSplit units towers ringDimension = 2 ^ j ∧
      2 ^ j ≤ perTower units towers ringDimension ∧
      perTower units towers ringDimension < 2 * 2 ^ j := by
  have positive : perTower units towers ringDimension ≠ 0 := by
    unfold perTower
    omega
  refine ⟨(perTower units towers ringDimension).log2, ?_, Nat.log2_self_le positive, ?_⟩
  · rw [defaultSplit, Nat.shiftLeft_eq, Nat.one_mul, perTower]
  · have above : perTower units towers ringDimension <
        2 ^ ((perTower units towers ringDimension).log2 + 1) :=
      Nat.lt_log2_self
    rwa [Nat.pow_succ, Nat.mul_comm] at above

theorem perTower_le (units towers k : Nat) : perTower units towers (2 ^ k) ≤ 2 ^ k := by
  have one : 0 < 2 ^ k := Nat.two_pow_pos k
  unfold perTower
  omega

theorem defaultSplit_dvd (units towers k : Nat) : ∃ j, defaultSplit units towers (2 ^ k) = 2 ^ j ∧
    2 ^ j ∣ 2 ^ k := by
  obtain ⟨j, split, below, _⟩ := defaultSplit_rounds units towers (2 ^ k)
  have exponent : j ≤ k :=
    (Nat.pow_le_pow_iff_right (by decide)).mp (Nat.le_trans below (perTower_le units towers k))
  exact ⟨j, split, Nat.pow_dvd_pow 2 exponent⟩

theorem defaultSplit_pos (units towers ringDimension : Nat) :
    0 < defaultSplit units towers ringDimension := by
  obtain ⟨j, split, _⟩ := defaultSplit_rounds units towers ringDimension
  rw [split]
  exact Nat.two_pow_pos j

section Enough
variable (somewhere : 0 < towers) (enough : towers ≤ units)
include somewhere enough

theorem perTower_of_enough (k : Nat) : perTower units towers (2 ^ k) = min (units / towers)
    (2 ^ k) := by
  have share : 0 < units / towers := Nat.div_pos enough somewhere
  have one : 0 < 2 ^ k := Nat.two_pow_pos k
  rw [perTower, Nat.max_eq_left (Nat.succ_le_of_lt somewhere)]
  omega

theorem defaultSplit_fits_units (k : Nat) : towers * defaultSplit units towers (2 ^ k) ≤ units := by
  obtain ⟨j, split, below, _⟩ := defaultSplit_rounds units towers (2 ^ k)
  rw [perTower_of_enough somewhere enough] at below
  calc towers * defaultSplit units towers (2 ^ k)
      ≤ towers * (units / towers) := Nat.mul_le_mul_left _ (by rw [split]; omega)
    _ ≤ units := Nat.mul_div_le units towers

/-- Twice the split would not fit the units, unless it is as large as the ring already. -/
theorem defaultSplit_maximal (k : Nat) :
    defaultSplit units towers (2 ^ k) = 2 ^ k ∨
    units < 2 * defaultSplit units towers (2 ^ k) * towers := by
  obtain ⟨j, split, below, above⟩ := defaultSplit_rounds units towers (2 ^ k)
  rw [perTower_of_enough somewhere enough] at below above
  rw [split]
  rcases Nat.lt_or_ge (units / towers) (2 ^ k) with small | large
  · rw [Nat.min_eq_left (Nat.le_of_lt small)] at above
    exact .inr ((Nat.div_lt_iff_lt_mul somewhere).mp above)
  · rw [Nat.min_eq_right large] at below above
    have upper : k < j + 1 :=
      (Nat.pow_lt_pow_iff_right Nat.one_lt_two).mp (by rwa [Nat.pow_succ, Nat.mul_comm])
    have lower : j ≤ k := (Nat.pow_le_pow_iff_right (by decide)).mp below
    exact .inl (by rw [Nat.le_antisymm lower (Nat.lt_succ_iff.mp upper)])

end Enough

/-- Where some tower has to go without a unit, each tower is given one. -/
theorem defaultSplit_of_few (few : units < towers) (ringDimension : Nat) :
    defaultSplit units towers ringDimension = 1 := by
  have none : units / max towers 1 = 0 := Nat.div_eq_of_lt (by omega)
  obtain ⟨j, split, below, _⟩ := defaultSplit_rounds units towers ringDimension
  rw [perTower, none] at below
  have positive : 0 < 2 ^ j := Nat.two_pow_pos j
  omega

/-- The units that a default split asks for are there whenever there are as many units as towers. -/
theorem few_of_refused (somewhere : 0 < towers)
    (refused : units < towers * defaultSplit units towers (2 ^ k)) : units < towers := by
  refine Nat.lt_of_not_le fun enough => ?_
  have fits := defaultSplit_fits_units somewhere enough k
  omega

end BankedRing.Partition
