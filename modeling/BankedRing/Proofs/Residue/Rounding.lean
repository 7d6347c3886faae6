import BankedRing.Proofs.Residue.Recoding

/-! Rounding of centred lifts. Both rounded quotients are `⌊(2 d p + q) / (2 q)⌋`, one by adding
half the divisor before a division of double words, the other by comparing the remainder of a
word with the upper half of the divisor. On a residue the magnitude of what it stands for is
rounded and the sign restored, so that a half goes away from zero. -/
namespace BankedRing

/-- The quotient `d p / q`, rounded with ties upward. -/
def roundedQuotient (d p q : Nat) : Nat := (2 * d * p + q) / (2 * q)

section Quotients

theorem roundedQuotient_eq (d p q : Nat) : roundedQuotient d p q = (d * p + q / 2) / q := by
  have halved : (2 * (d * p) + q) / 2 = d * p + q / 2 := by omega
  rw [roundedQuotient, Nat.mul_assoc, ← Nat.div_div_eq_div_mul, halved]

/-- A quotient is rounded up where its remainder lies in the upper half of the divisor. -/
theorem roundedQuotient_one (d : Nat) {q : Nat} (positive : 0 < q) :
    roundedQuotient d 1 q = d / q + if q - q / 2 ≤ d % q then 1 else 0 := by
  have below := Nat.mod_lt d positive
  have split : d + q / 2 = q * (d / q) + (d % q + q / 2) := by
    have := Nat.div_add_mod d q
    omega
  rw [roundedQuotient_eq, Nat.mul_one, split, Nat.mul_add_div positive]
  congr 1
  split
  · exact Nat.div_eq_of_lt_le (by omega) (by omega)
  · exact Nat.div_eq_of_lt (by omega)

theorem roundedQuotient_one_le (d : Nat) {q : Nat} (positive : 0 < q) :
    roundedQuotient d 1 q ≤ d := by
  rw [roundedQuotient_eq, Nat.mul_one]
  apply Nat.le_of_lt_succ
  rw [Nat.div_lt_iff_lt_mul positive]
  have := Nat.le_mul_of_pos_left q (Nat.succ_pos d)
  have := Nat.le_mul_of_pos_right d positive
  rw [Nat.succ_mul]
  omega

end Quotients

namespace Residue
variable {m q : Word}

/-- The double word in front of the division is large enough for every product and its half. -/
theorem scaleRounded_eq_ok (positive : 0 < q.toNat) (d p : Word) :
    scaleRounded d p q = .ok (UInt64.ofNat (roundedQuotient d.toNat p.toNat q.toNat)) := by
  have hd := d.toNat_lt
  have hp := p.toNat_lt
  have hq := q.toNat_lt
  have product : d.toNat * p.toNat ≤ (2 ^ 64 - 1) * (2 ^ 64 - 1) :=
    Nat.mul_le_mul (by omega) (by omega)
  have half : (q >>> 1).toNat = q.toNat / 2 := UInt64.toNat_shiftRight q 1
  have numerator : ((DoubleWord.ofNat (d.toNat * p.toNat)).add
    (DoubleWord.ofWord (q >>> 1))).toNat =
      d.toNat * p.toNat + q.toNat / 2 := by
    rw [DoubleWord.toNat_add, DoubleWord.toNat_ofNat (by omega), DoubleWord.toNat_ofWord, half,
      Nat.mod_eq_of_lt (by omega)]
  simp only [scaleRounded, DoubleWord.product_eq_ok, ok_bind, DoubleWord.divide_eq _ positive,
    numerator,
    roundedQuotient_eq]
  rfl

/-- Both rounded quotients agree, and the second one never leaves a word. -/
theorem divideRounded_eq_ok (positive : 0 < q.toNat) (d : Word) :
    divideRounded d q = .ok (UInt64.ofNat (roundedQuotient d.toNat 1 q.toNat)) := by
  have nonzero := ne_zero_of_pos positive
  have word := d.toNat_lt
  have least := roundedQuotient_one_le d.toNat positive
  have half : (q >>> 1).toNat = q.toNat / 2 := UInt64.toNat_shiftRight q 1
  have upper : (q - (q >>> 1)).toNat = q.toNat - q.toNat / 2 := by
    rw [UInt64.toNat_sub_of_le _ _ (UInt64.le_iff_toNat_le.mpr (by omega)), half]
  have quotient : (d / q).toNat = d.toNat / q.toNat := UInt64.toNat_div d q
  have reaches : q - (q >>> 1) ≤ d % q ↔ q.toNat - q.toNat / 2 ≤ d.toNat % q.toNat := by
    rw [UInt64.le_iff_toNat_le, upper, UInt64.toNat_mod]
  rw [divideRounded, Checked.div, if_neg nonzero, ok_bind, Checked.rem, if_neg nonzero, ok_bind,
    Checked.sub_eq_ok (by omega), ok_bind]
  rw [roundedQuotient_one _ positive] at least ⊢
  simp only [reaches]
  split
  · rename_i up
    rw [if_pos up] at least
    rw [Checked.add_eq_ok (by rw [quotient, UInt64.toNat_one]; simp only [UInt64.size]; omega),
      UInt64.ofNat_add, ← quotient, UInt64.ofNat_toNat]
    rfl
  · rw [Nat.add_zero, ← quotient, UInt64.ofNat_toNat]
    rfl

theorem divideRounded_eq_scaleRounded (positive : 0 < q.toNat) (d : Word) :
    divideRounded d q = scaleRounded d 1 q := by
  rw [divideRounded_eq_ok positive, scaleRounded_eq_ok positive, UInt64.toNat_one]

/-- The opposite of a residue completes it to the modulus, if there is anything to complete. -/
theorem opposite_eq_ok (positive : 0 < m.toNat) (g : Word) :
    (if residue g.toNat m = 0 then return 0 else Checked.sub m (residue g.toNat m)) =
      Except.ok (integerResidue (-g.toNat) m) := by
  have value := toNat_residue g.toNat positive
  have cut := Nat.mod_lt g.toNat positive
  have opposite : ∀ u : Word, u < m → m.toNat ∣ u.toNat + g.toNat →
      u = integerResidue (-g.toNat) m := by
    intro u less multiple
    refine (eq_integerResidue_iff positive).mpr ⟨less, ?_⟩
    have gap : -(g.toNat : Int) - u.toNat = -((u.toNat + g.toNat : Nat) : Int) := by omega
    rw [Int.modEq_iff_dvd, gap, Int.dvd_neg]
    exact Int.natCast_dvd_natCast.mpr multiple
  split
  · rename_i cancels
    rw [cancels, UInt64.toNat_zero] at value
    refine congrArg Except.ok (opposite 0 (UInt64.lt_iff_toNat_lt.mpr positive) ?_)
    rw [UInt64.toNat_zero, Nat.zero_add]
    exact Nat.dvd_of_mod_eq_zero value.symm
  · rename_i remains
    have nonzero : (residue g.toNat m).toNat ≠ 0 := fun zero => remains (UInt64.toNat_inj.mp zero)
    have rest : (m - residue g.toNat m).toNat = m.toNat - g.toNat % m.toNat := by
      rw [UInt64.toNat_sub_of_le _ _ (UInt64.le_iff_toNat_le.mpr (by omega)), value]
    have less : m - residue g.toNat m < m := by
      rw [UInt64.lt_iff_toNat_lt, rest]
      omega
    have split := Nat.div_add_mod g.toNat m.toNat
    rw [Checked.sub_eq_ok (by omega)]
    exact congrArg Except.ok (opposite _ less ⟨g.toNat / m.toNat + 1, by rw [rest, Nat.mul_succ]; omega⟩)

/-- Rounding the magnitude rounds what a residue stands for, if zero is rounded to zero. -/
theorem onCentredLift_eq_ok {v : Word} (reduced : v < m) {f : Word → Checked Word} {g : Word}
    (computed : f (UInt64.ofNat (centredLift m v).natAbs) = .ok g)
    (zero : centredLift m v = 0 → g = 0) :
    onCentredLift m v f = .ok (integerResidue ((centredLift m v).sign * g.toNat) m) := by
  have below := UInt64.lt_iff_toNat_lt.mp reduced
  have positive : 0 < m.toNat := Nat.zero_lt_of_lt below
  unfold onCentredLift
  split
  · rename_i high
    rw [half_lt_iff] at high
    have lift : centredLift m v = v.toNat - m.toNat := if_neg (by omega)
    have magnitude : UInt64.ofNat (centredLift m v).natAbs = m - v := by
      have abs : (centredLift m v).natAbs = m.toNat - v.toNat := by omega
      rw [abs, ← UInt64.toNat_sub_of_le _ _ (UInt64.le_iff_toNat_le.mpr (by omega)),
        UInt64.ofNat_toNat]
    rw [magnitude] at computed
    rw [Checked.sub_eq_ok (by omega), ok_bind, computed, ok_bind, reduce_eq_ok g positive, ok_bind,
      Int.sign_eq_neg_one_of_neg (by omega), Int.neg_one_mul]
    exact opposite_eq_ok positive g
  · rename_i low
    rw [half_lt_iff] at low
    have lift : centredLift m v = v.toNat := if_pos (by omega)
    have restored : (centredLift m v).sign * (g.toNat : Int) = (g.toNat : Nat) := by
      rcases eq_or_ne v.toNat 0 with vanishes | remains
      · rw [zero (by omega), UInt64.toNat_zero, Nat.cast_zero, Int.mul_zero]
      · rw [Int.sign_eq_one_of_pos (by omega), Int.one_mul]
    rw [lift, Int.natAbs_natCast, UInt64.ofNat_toNat] at computed
    rw [computed, ok_bind, reduce_eq_ok g positive, restored,
      integerResidue_of_modEq (Int.ModEq.refl _)]

/-- What a residue stands for, multiplied by `p / q` and rounded with ties away from zero; the
magnitude is cut to a word. -/
def roundedLift (m p q x : Word) : Int :=
  (centredLift m x).sign * (UInt64.ofNat
    (roundedQuotient (centredLift m x).natAbs p.toNat q.toNat)).toNat

theorem roundedLift_eq {p x : Word}
    (fits : roundedQuotient (centredLift m x).natAbs p.toNat q.toNat < UInt64.size) :
    roundedLift m p q x =
      (centredLift m x).sign * (roundedQuotient (centredLift m x).natAbs p.toNat
        q.toNat : Nat) := by
  rw [roundedLift, UInt64.toNat_ofNat_of_lt' fits]

theorem natAbs_centredLift_lt {x : Word} (reduced : x < m) :
    (centredLift m x).natAbs < UInt64.size := by
  have word : m.toNat < UInt64.size := m.toNat_lt
  have centred := centred_centredLift reduced
  unfold Centred at centred
  omega

theorem scaleAndRound_eq_ok (positive : 0 < q.toNat) {x : Word} (reduced : x < m) (p : Word) :
    (onCentredLift m x fun d => scaleRounded d p q) =
      .ok (integerResidue (roundedLift m p q x) m) := by
  have magnitude : (UInt64.ofNat (centredLift m x).natAbs).toNat = (centredLift m x).natAbs :=
    UInt64.toNat_ofNat_of_lt' (natAbs_centredLift_lt reduced)
  have computed := scaleRounded_eq_ok positive (UInt64.ofNat (centredLift m x).natAbs) p
  rw [magnitude] at computed
  refine onCentredLift_eq_ok reduced computed fun zero => ?_
  rw [zero, Int.natAbs_zero, roundedQuotient_eq, Nat.zero_mul, Nat.zero_add,
    Nat.div_eq_of_lt (by omega)]
  rfl

end Residue

namespace Operation
variable {m q : Word} {a : List Word}

theorem scaleAndRound_apply (positive : 0 < q.toNat) (reduced : ∀ x ∈ a, x < m) (p : Word)
    (b destination : List Word) :
    (Operation.scaleAndRound m p q).apply a b destination =
      .ok ((a.take destination.length).map
        (fun x => integerResidue (Residue.roundedLift m p q x) m) ++
        destination.drop a.length) := by
  have exact : ∀ x ∈ a, (Operation.scaleAndRound m p q).cell x 0 =
      .ok (integerResidue (Residue.roundedLift m p q x) m) :=
    fun x member => Residue.scaleAndRound_eq_ok positive (reduced x member) p
  exact apply_unary_onto rfl rfl exact b destination

/-- Division alone is the scaling by one, cell by cell. -/
theorem divideAndRound_apply (positive : 0 < q.toNat) (a b destination : List Word) :
    (Operation.divideAndRound m q).apply a b destination =
      (Operation.scaleAndRound m 1 q).apply a b destination := by
  have cells : (Operation.divideAndRound m q).cell = (Operation.scaleAndRound m 1 q).cell := by
    funext x y
    simp only [cell, Residue.divideRounded_eq_scaleRounded positive]
  simp only [apply, prepare, pure_bind, cells]
  rfl

/-- Rounding gives every residue the one that is congruent to its rounded lift, in place and into
another list, as far as that reaches; only a quotient that leaves the word is cut. Dividing is
scaling by one, where no quotient is too large. -/
theorem rounding_of_lift (nonzero : q ≠ 0) (reduced : ∀ x ∈ a, x < m) (b : List Word) :
    (∀ p : Word, ∃ rounded : Word → Word,
      (∀ x ∈ a, (2 * (centredLift m x).natAbs * p.toNat + q.toNat) / (2 * q.toNat) < UInt64.size →
        ∀ u : Word, u = rounded x ↔ u < m ∧
          (u.toNat : Int) ≡ (centredLift m x).sign *
            ((2 * (centredLift m x).natAbs * p.toNat + q.toNat) / (2 * q.toNat) : Nat)
              [ZMOD m.toNat]) ∧
      (Operation.scaleAndRound m p q).kernel a b = .ok (a.map rounded) ∧
      ∀ destination, (Operation.scaleAndRound m p q).apply a b destination =
        .ok ((a.take destination.length).map rounded ++ destination.drop a.length)) ∧
      (∀ x ∈ a, (2 * (centredLift m x).natAbs * 1 + q.toNat) / (2 * q.toNat) < UInt64.size) ∧
      (Operation.divideAndRound m q).kernel a b = (Operation.scaleAndRound m 1 q).kernel a b ∧
      (∀ destination, (Operation.divideAndRound m q).apply a b destination =
        (Operation.scaleAndRound m 1 q).apply a b destination) ∧
      ∀ d : Word, ∃ w, Residue.divideRounded d q = .ok w ∧ Residue.scaleRounded d 1 q = .ok w := by
  have positive : 0 < q.toNat := Nat.pos_of_ne_zero fun zero => nonzero (UInt64.toNat_inj.mp zero)
  refine ⟨fun p => ⟨_, fun x member fits u => ?_, ?_, scaleAndRound_apply positive reduced p b⟩,
    fun x member => ?_, divideAndRound_apply positive a b a, divideAndRound_apply positive a b,
    fun d => ?_⟩
  · have modulus : 0 < m.toNat := Nat.zero_lt_of_lt (UInt64.lt_iff_toNat_lt.mp (reduced x member))
    rw [eq_integerResidue_iff modulus, Residue.roundedLift_eq fits]
    rfl
  · have inPlace := scaleAndRound_apply positive reduced p b a
    rwa [List.take_length, List.drop_length, List.append_nil] at inPlace
  · exact Nat.lt_of_le_of_lt (roundedQuotient_one_le _ positive)
      (Residue.natAbs_centredLift_lt (reduced x member))
  · exact ⟨_, Residue.divideRounded_eq_ok positive d, Residue.scaleRounded_eq_ok positive d 1⟩

/-- Halves go away from zero on both sides: `3`, `-3`, `1` and `-1` times three by two. -/
theorem rounding_of_lift_halves :
    (2 : Word) ≠ 0 ∧ (∀ x ∈ ([3, 94, 1, 96] : List Word), x < 97) ∧
      (2 * (centredLift 97 94).natAbs * 3 + 2) / (2 * 2) < UInt64.size ∧
      (Operation.scaleAndRound 97 3 2).kernel [3, 94, 1, 96] [] = .ok [5, 92, 2, 95] ∧
      (Operation.scaleAndRound 97 3 2).apply [3, 94, 1, 96] [] [0, 0] = .ok [5, 92] ∧
      (∀ u : Word, u = 92 ↔ u < 97 ∧ (u.toNat : Int) ≡ -5 [ZMOD 97]) ∧
      (Operation.divideAndRound 97 2).kernel [3, 94, 1, 96] [] =
        (Operation.scaleAndRound 97 1 2).kernel [3, 94, 1, 96] [] ∧
      ∃ w, Residue.divideRounded 18446744073709551615 2 = .ok w ∧
        Residue.scaleRounded 18446744073709551615 1 2 = .ok w := by
  have reduced : ∀ x ∈ ([3, 94, 1, 96] : List Word), x < 97 := by simp
  have nonzero : (2 : Word) ≠ 0 := by decide
  have fits : (2 * (centredLift 97 94).natAbs * 3 + 2) / (2 * 2) < UInt64.size := by decide
  have run : (Operation.scaleAndRound 97 3 2).kernel [3, 94, 1, 96] [] = .ok [5, 92, 2, 95] := by
    decide
  obtain ⟨scaled, _, divided, _, quotient⟩ := rounding_of_lift nonzero reduced []
  obtain ⟨rounded, unique, inPlace, onto⟩ := scaled 3
  have values : [5, 92, 2, 95] = [rounded 3, rounded 94, rounded 1, rounded 96] :=
    Except.ok.inj (run.symm.trans inPlace)
  simp only [List.cons.injEq] at values
  obtain ⟨first, second, _⟩ := values
  have only := unique 94 (by simp) fits
  rw [← second] at only
  exact ⟨nonzero, reduced, fits, run, by rw [onto, first, second]; rfl, only, divided,
    quotient 18446744073709551615⟩

end Operation
end BankedRing
