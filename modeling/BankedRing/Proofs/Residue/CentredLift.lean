import BankedRing.Proofs.Outcome
import BankedRing.Proofs.Residue.Arithmetic
import BankedRing.Residue.Rounding
import Mathlib.Data.Int.ModEq
import Mathlib.Data.Nat.Bitwise

/-! Centred lifts. A residue stands for the integer of least magnitude in its class; a
residue of exactly half an even modulus stands for itself. Lifting and taking residues are
inverse to each other between the residues of a modulus and the integers around zero that
it can tell apart, and a larger modulus tells more of them apart. Parity and the change of
modulus are stated through the integer that a residue stands for. -/
namespace BankedRing

/-- The integer that a residue stands for. -/
def centredLift (m x : Word) : Int :=
  if x.toNat ≤ m.toNat / 2 then x.toNat else x.toNat - m.toNat

/-- The residue of an integer as a word. -/
def integerResidue (c : Int) (m : Word) : Word := residue (c % m.toNat).toNat m

section IntegerResidues
variable {m : Word}

theorem integerResidue_of_modEq {n : Nat} {c : Int} (h : (n : Int) ≡ c [ZMOD m.toNat]) :
    integerResidue c m = residue n m := by
  have cut : (c % m.toNat).toNat = n % m.toNat := by
    rw [← h.eq, ← Int.natCast_emod, Int.toNat_natCast]
  rw [integerResidue, cut]
  exact residue_congr (Nat.mod_mod _ _)

variable (positive : 0 < m.toNat)
include positive

theorem integerResidue_lt (c : Int) : integerResidue c m < m := residue_lt _ positive

theorem cast_integerResidue (c : Int) : ((integerResidue c m).toNat : Int) = c % m.toNat := by
  have low : 0 ≤ c % m.toNat := Int.emod_nonneg c (by omega)
  have high : c % m.toNat < m.toNat := Int.emod_lt_of_pos c (by omega)
  rw [integerResidue, toNat_residue _ positive, Nat.mod_eq_of_lt (by omega),
    Int.toNat_of_nonneg low]

/-- The residue of an integer is the only one in its class. -/
theorem eq_integerResidue_iff {u : Word} {c : Int} :
    u = integerResidue c m ↔ u < m ∧ (u.toNat : Int) ≡ c [ZMOD m.toNat] := by
  have value := cast_integerResidue positive c
  constructor
  · rintro rfl
    refine ⟨integerResidue_lt positive c, ?_⟩
    rw [value]
    exact Int.mod_modEq c _
  · rintro ⟨below, same⟩
    rw [UInt64.lt_iff_toNat_lt] at below
    have own : (u.toNat : Int) % m.toNat = u.toNat := Int.emod_eq_of_lt (by omega) (by omega)
    have : (u.toNat : Int) = (integerResidue c m).toNat := by rw [value, ← own, same]
    exact UInt64.toNat_inj.mp (by omega)

end IntegerResidues

section Lifts
variable {m x : Word}

theorem centredLift_modEq (m x : Word) : centredLift m x ≡ x.toNat [ZMOD m.toNat] := by
  unfold centredLift
  split
  · exact Int.ModEq.refl _
  · exact Int.modEq_sub_modulus_iff.mpr (Int.ModEq.refl _) |>.symm

/-- The integers that a modulus tells apart. -/
def Centred (m : Word) (c : Int) : Prop := -(m.toNat : Int) < 2 * c ∧ 2 * c ≤ m.toNat

theorem Centred.mono {wide : Word} {c : Int} (le : m ≤ wide) (h : Centred m c) :
    Centred wide c := by
  rw [UInt64.le_iff_toNat_le] at le
  unfold Centred at h ⊢
  omega

theorem centred_centredLift (h : x < m) : Centred m (centredLift m x) := by
  rw [UInt64.lt_iff_toNat_lt] at h
  unfold Centred centredLift
  split <;> omega

theorem integerResidue_centredLift (h : x < m) : integerResidue (centredLift m x) m = x := by
  have positive : 0 < m.toNat := Nat.zero_lt_of_lt (UInt64.lt_iff_toNat_lt.mp h)
  exact ((eq_integerResidue_iff positive).mpr ⟨h, (centredLift_modEq m x).symm⟩).symm

theorem centredLift_integerResidue {c : Int} (h : Centred m c) :
    centredLift m (integerResidue c m) = c := by
  unfold Centred at h
  have positive : 0 < m.toNat := by omega
  have value := cast_integerResidue positive c
  unfold centredLift
  -- A negative integer has its residue above the half, any other one is its own residue.
  rcases lt_or_ge c 0 with negative | nonnegative
  · have wrapped : c % m.toNat = c + m.toNat := by
      rw [← Int.add_emod_right, Int.emod_eq_of_lt (by omega) (by omega)]
    rw [if_neg (by omega)]
    omega
  · rw [Int.emod_eq_of_lt nonnegative (by omega)] at value
    rw [if_pos (by omega)]
    exact value

end Lifts

namespace Residue
variable {m x : Word}

theorem half_lt_iff : m >>> 1 < x ↔ m.toNat / 2 < x.toNat := by
  rw [UInt64.lt_iff_toNat_lt, UInt64.toNat_shiftRight]
  exact Iff.rfl

/-- Above half the modulus the lowest bit flips. -/
theorem toNat_parity (m x : Word) :
    (parity m x).toNat = (x.toNat + if m.toNat / 2 < x.toNat then 1 else 0) % 2 := by
  rw [parity, UInt64.toNat_and, UInt64.toNat_xor, UInt64.toNat_one, Nat.and_one_is_mod,
    Nat.xor_mod_two_eq]
  by_cases above : m.toNat / 2 < x.toNat
  · rw [if_pos (half_lt_iff.mpr above), if_pos above, UInt64.toNat_one]
  · rw [if_neg (half_lt_iff.not.mpr above), if_neg above, UInt64.toNat_zero]

/-- The flip stands for the modulus that is taken away, so it is right when that is odd. -/
theorem parity_eq_iff (m x : Word) :
    parity m x = integerResidue (centredLift m x) 2 ↔ m.toNat % 2 = 1 ∨ x.toNat ≤ m.toNat / 2 := by
  have two : (2 : Word).toNat = 2 := rfl
  have wanted := cast_integerResidue (m := 2) (by decide) (centredLift m x)
  rw [← UInt64.toNat_inj, toNat_parity, ← Int.natCast_inj, wanted, two, centredLift]
  by_cases low : x.toNat ≤ m.toNat / 2
  · rw [if_neg (by omega), if_pos low]
    omega
  · rw [if_pos (by omega), if_neg low]
    omega

section SwitchModulus
variable {old new v : Word} (hold : Modulus.isSupported old = true)
    (hnew : Modulus.isSupported new = true)
include hnew

theorem switchModulus_of_low (below : v < old) (low : v.toNat ≤ old.toNat / 2) :
    switchModulus old new v = .ok (residue v.toNat new) := by
  have kept : ¬ old >>> 1 < v := half_lt_iff.not.mpr (by omega)
  simp only [switchModulus, if_neg kept]
  split
  · rename_i wider
    rw [residue_toNat (UInt64.lt_trans below wider)]
    rfl
  · exact reduce_eq_ok v (Modulus.pos hnew)

include hold

/-- A residue that stands for a negative number is moved by the difference of the moduli, or
by what completes the old modulus to a multiple of the new one. -/
theorem switchModulus_of_high (below : v < old) (high : old.toNat / 2 < v.toNat) :
    ∃ gap, switchModulus old new v = .ok (residue (v.toNat + gap) new) ∧
      new.toNat ∣ old.toNat + gap := by
  have moved : old >>> 1 < v := half_lt_iff.mpr high
  have oldSmall := Modulus.lt_two_pow hold
  have newSmall := Modulus.lt_two_pow hnew
  rw [UInt64.lt_iff_toNat_lt] at below
  simp only [switchModulus, if_pos moved]
  split
  · -- A wider modulus leaves room above the old one, so nothing has to be cut.
    rename_i wider
    rw [UInt64.lt_iff_toNat_lt] at wider
    have gap : (new - old).toNat = new.toNat - old.toNat :=
      UInt64.toNat_sub_of_le _ _ (UInt64.le_iff_toNat_le.mpr (by omega))
    have sum : (v + (new - old)).toNat = v.toNat + (new.toNat - old.toNat) := by
      rw [UInt64.toNat_add, gap, Nat.mod_eq_of_lt (by omega)]
    refine ⟨new.toNat - old.toNat, ?_, ?_⟩
    · rw [Checked.sub_eq_ok (by omega), ok_bind,
        Checked.add_eq_ok (by rw [gap]; simp only [UInt64.size]; omega),
        ← sum, residue_toNat]
      rw [UInt64.lt_iff_toNat_lt, sum]
      omega
    · exact ⟨1, by omega⟩
  · have remainder : (old % new).toNat = old.toNat % new.toNat := UInt64.toNat_mod _ _
    have cut : old.toNat % new.toNat < new.toNat := Nat.mod_lt _ (Modulus.pos hnew)
    have gap : (new - old % new).toNat = new.toNat - old.toNat % new.toNat := by
      rw [UInt64.toNat_sub_of_le _ _ (UInt64.le_iff_toNat_le.mpr (by omega)), remainder]
    have sum : (v + (new - old % new)).toNat = v.toNat + (new.toNat - old.toNat % new.toNat) := by
      rw [UInt64.toNat_add, gap, Nat.mod_eq_of_lt (by omega)]
    refine ⟨new.toNat - old.toNat % new.toNat, ?_, ?_⟩
    · rw [Checked.rem, if_neg (Modulus.ne_zero hnew), ok_bind,
        Checked.sub_eq_ok (by omega), ok_bind,
        Checked.add_eq_ok (by rw [gap]; simp only [UInt64.size]; omega), ok_bind, ← sum]
      exact reduce_eq_ok _ (Modulus.pos hnew)
    · have split := Nat.div_add_mod old.toNat new.toNat
      exact ⟨old.toNat / new.toNat + 1, by rw [Nat.mul_succ]; omega⟩

/-- Changing the modulus keeps what a residue stands for. -/
theorem switchModulus_eq_ok (below : v < old) :
    switchModulus old new v = .ok (integerResidue (centredLift old v) new) := by
  rw [centredLift]
  split
  · rename_i low
    rw [switchModulus_of_low hnew below low, integerResidue_of_modEq (Int.ModEq.refl _)]
  · rename_i high
    obtain ⟨gap, switched, multiple⟩ := switchModulus_of_high hold hnew below (Nat.not_le.mp high)
    have same : ((v.toNat + gap : Nat) : Int) ≡ v.toNat - old.toNat [ZMOD new.toNat] := by
      have moved : (v.toNat - old.toNat : Int) -
          (v.toNat + gap : Nat) = -((old.toNat + gap : Nat) : Int) := by
        omega
      rw [Int.modEq_iff_dvd, moved, Int.dvd_neg]
      exact Int.natCast_dvd_natCast.mpr multiple
    rw [switched, integerResidue_of_modEq same]

end SwitchModulus

end Residue
end BankedRing
