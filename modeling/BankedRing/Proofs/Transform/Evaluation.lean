import BankedRing.Proofs.Transform.InPlace

/-! What a transform leaves in its buffer, for tables that have been built. The forward transform
evaluates at the odd powers of the root in bit-reversed order; under an odd modulus the two
transforms take each other back; a buffer of another length is refused and stays as it is. -/
namespace BankedRing.RootTables
variable {root m : Word} {n bits : ℕ} {tables : RootTables}

theorem eval_residues (values : List Word) (x : ℕ) :
    (Butterfly.polynomial (residues m values)).eval (x : ZMod m.toNat) =
      ((∑ j : Fin values.length, values[j].toNat * x ^ (j : ℕ) : ℕ) : ZMod m.toNat) := by
  rw [Butterfly.eval_polynomial, length_residues, Finset.sum_range, Nat.cast_sum]
  refine Finset.sum_congr rfl fun j _ => ?_
  rw [Nat.cast_mul, Nat.cast_pow]
  simp [residues]

theorem toNat_eq_mod {x : Word} {k : ℕ} (less : x < m) (value : (x.toNat : ZMod m.toNat) = k) :
    x.toNat = k % m.toNat := by
  rwa [ZMod.natCast_eq_natCast_iff', Nat.mod_eq_of_lt (UInt64.lt_iff_toNat_lt.mp less)] at value

/-- What a buffer that stands for the values of a polynomial holds in each slot. -/
theorem slot_of_evaluations {psi : ℕ} {values out : List Word}
    (minusOne : (psi : ZMod m.toNat) ^ 2 ^ bits = -1) (length : values.length = 2 ^ bits)
    (stands : Stands m out (Butterfly.forward (slot (psi : ZMod m.toNat) bits) bits 1
      (residues m values)))
    {i : ℕ} (inside : i < out.length) :
    out[i].toNat = (∑ j : Fin values.length,
      values[j].toNat * psi ^ ((2 * bitReverse i bits + 1) * j)) % m.toNat := by
  have same : (residues m values).length = 2 ^ bits := (length_residues _).trans length
  have evaluates := stands.value
  rw [Butterfly.forward_eq_evaluations (splits_slot minusOne) same, points_eq minusOne] at evaluates
  have entry := congrArg (·[i]?) evaluates
  have below : i < 2 ^ bits := by rwa [stands.length, Butterfly.length_forward same] at inside
  simp only [residues, List.getElem?_map, List.getElem?_eq_getElem inside,
    List.getElem?_range below,
    Option.map_some, Option.some.injEq] at entry
  refine toNat_eq_mod (stands.reduced _ (List.getElem_mem inside)) (entry.trans ?_)
  have point := eval_residues (m := m) values (psi ^ (2 * bitReverse i bits + 1))
  simp only [Nat.cast_pow, ← pow_mul] at point
  exact point

/-- The forward transform leaves in each slot the polynomial's value at an odd power of the root,
the exponent with its bits reversed. -/
theorem forwardInPlace_evaluates (built : ofRoot root n m = .ok tables) {values : Array Word}
    (size : values.size = n) (reduced : ∀ x ∈ values, x < m) :
    ∃ out, forwardInPlace tables values = .ok () out ∧
      forwardTransform tables values.toList = .ok out.toList ∧
      out.size = n ∧
      (∀ i (inside : i < out.size), out[i].toNat =
        (∑ j : Fin values.size, values[j].toNat * root.toNat ^
          ((2 * bitReverse i n.log2 + 1) * j)) % m.toNat) ∧
      ∀ i k, (bitReverse i n.log2).testBit k =
        (decide (k < n.log2) && i.testBit (n.log2 - 1 - k)) := by
  obtain ⟨_, bits, _, rfl, _⟩ := ofRoot_eq_ok built
  obtain ⟨rfl, psi', rooted⟩ := ofRoot_rooted built
  obtain ⟨values⟩ := values
  obtain ⟨out, ran, ranTree, stands⟩ :=
    forwardInPlace_eq_ok rooted size fun x member => reduced x (List.mem_toArray.mpr member)
  have same : (residues tables.modulus values).length = 2 ^ bits := (length_residues _).trans size
  rw [Nat.log2_two_pow]
  refine ⟨⟨out⟩, ran, ranTree, stands.length.trans (Butterfly.length_forward same),
    fun i inside => ?_,
    fun i k => testBit_bitReverse i bits k⟩
  exact slot_of_evaluations rooted.minusOne size stands inside

theorem four_accepted : ∃ tables, ofRoot 2 4 17 = .ok tables :=
  exists_ok_of_toOption (by decide +kernel)

theorem four_reduced : ∀ x ∈ (#[1, 0, 16, 3] : Array Word), x < 17 := by simp

theorem forwardInPlace_evaluates_four :
    ∃ tables out, ofRoot 2 4 17 = .ok tables ∧ forwardInPlace tables #[1, 0, 16, 3] = .ok () out ∧
      out.size = 4 ∧
      ∀ i (inside : i < out.size), out[i].toNat =
        (∑ j : Fin 4, (#[1, 0, 16, 3] : Array Word)[j].toNat * 2 ^ ((2 * bitReverse i 2 + 1) * j)) %
          17 := by
  obtain ⟨tables, built⟩ := four_accepted
  obtain ⟨out, ran, _, size, slots, _⟩ := forwardInPlace_evaluates built rfl four_reduced
  exact ⟨tables, out, built, ran, size, slots⟩

theorem inPlace_refused {values : Array Word} (other : values.size ≠ tables.length) :
    forwardInPlace tables values =
      .error (.shapeMismatch (.transformLength tables.length values.size)) values ∧
      inverseInPlace tables values =
        .error (.shapeMismatch (.transformLength tables.length values.size)) values := by
  have refused : tables.checkLength values.toList =
      .error (.shapeMismatch (.transformLength tables.length values.size)) := if_neg other
  constructor
  · simp only [forwardInPlace, run_get, refused, run_lift_error]
  · simp only [inverseInPlace, run_get, refused, run_lift_error]

/-- The transforms take each other back. -/
theorem inPlace_inverse {psi psi' : ZMod tables.modulus.toNat}
    (faithful : tables.Faithful bits psi psi') {values : List Word}
    (length : values.length = 2 ^ bits) (reduced : ∀ x ∈ values, x < tables.modulus) :
    ∃ forwarded inverted, forwardInPlace tables ⟨values⟩ = .ok () ⟨forwarded⟩ ∧
      inverseInPlace tables ⟨forwarded⟩ = .ok () ⟨values⟩ ∧
      inverseInPlace tables ⟨values⟩ = .ok () ⟨inverted⟩ ∧
      forwardInPlace tables ⟨inverted⟩ = .ok () ⟨values⟩ ∧
      (∀ x ∈ forwarded, x < tables.modulus) ∧ ∀ x ∈ inverted, x < tables.modulus := by
  obtain ⟨u, represents, unit⟩ := faithful.scale
  have inverses : ∀ node, slot psi bits node * slot psi' bits node = 1 :=
    slot_mul_slot faithful.inverses
  have same : (residues tables.modulus values).length = 2 ^ bits := (length_residues _).trans length
  obtain ⟨forwarded, ranForward, _, forwardStands⟩ :=
    forwardInPlace_eq_ok faithful.toRooted length reduced
  obtain ⟨inverted, ranInverse, _, inverseStands⟩ :=
    inverseInPlace_eq_ok faithful.toRooted represents length reduced
  have forwardLength : forwarded.length = 2 ^ bits :=
    forwardStands.length.trans (Butterfly.length_forward same)
  have inverseLength : inverted.length = 2 ^ bits := by
    rw [inverseStands.length, List.length_map, Butterfly.length_inverse same]
  obtain ⟨back, ranBack, _, backStands⟩ :=
    inverseInPlace_eq_ok faithful.toRooted represents forwardLength forwardStands.reduced
  obtain ⟨again, ranAgain, _, againStands⟩ :=
    forwardInPlace_eq_ok faithful.toRooted inverseLength inverseStands.reduced
  rw [forwardStands.value, Butterfly.scaled_inverse_forward unit inverses same] at backStands
  rw [inverseStands.value, Butterfly.forward_scaled_inverse unit inverses same] at againStands
  have restored : back = values := residues_injective backStands.reduced reduced backStands.value
  have restoredAgain : again = values :=
    residues_injective againStands.reduced reduced againStands.value
  rw [restored] at ranBack
  rw [restoredAgain] at ranAgain
  exact ⟨forwarded, inverted, ranForward, ranBack, ranInverse, ranAgain, forwardStands.reduced,
    inverseStands.reduced⟩

/-- Under an odd modulus the transforms are mutually inverse on reduced words, and refuse a buffer
of any other length. -/
theorem inPlace_mutually_inverse (built : ofRoot root n m = .ok tables) (odd : m.toNat % 2 = 1)
    (values : Array Word) :
    (values.size = n → (∀ x ∈ values, x < m) → ∃ forwarded inverted,
      forwardInPlace tables values = .ok () forwarded ∧
      inverseInPlace tables forwarded = .ok () values ∧
      inverseInPlace tables values = .ok () inverted ∧
      forwardInPlace tables inverted = .ok () values ∧
      (∀ x ∈ forwarded, x < m) ∧ ∀ x ∈ inverted, x < m) ∧
    (values.size ≠ n →
      forwardInPlace tables values =
        .error (.shapeMismatch (.transformLength n values.size)) values ∧
      inverseInPlace tables values =
        .error (.shapeMismatch (.transformLength n values.size)) values) := by
  obtain ⟨rfl, bits, rfl, psi, psi', faithful⟩ := ofRoot_faithful odd built
  constructor
  · intro size reduced
    obtain ⟨values⟩ := values
    obtain ⟨forwarded, inverted, ranForward, ranBack, ranInverse, ranAgain, forwardReduced,
        inverseReduced⟩ :=
      inPlace_inverse faithful size fun x member => reduced x (List.mem_toArray.mpr member)
    exact ⟨⟨forwarded⟩, ⟨inverted⟩, ranForward, ranBack, ranInverse, ranAgain,
      fun x member => forwardReduced x (List.mem_toArray.mp member),
      fun x member => inverseReduced x (List.mem_toArray.mp member)⟩
  · intro other
    rw [← faithful.length] at other ⊢
    exact inPlace_refused other

theorem inPlace_mutually_inverse_four :
    ∃ tables, ofRoot 2 4 17 = .ok tables ∧
      (∃ forwarded inverted, forwardInPlace tables #[1, 0, 16, 3] = .ok () forwarded ∧
        inverseInPlace tables forwarded = .ok () #[1, 0, 16, 3] ∧
        inverseInPlace tables #[1, 0, 16, 3] = .ok () inverted ∧
        forwardInPlace tables inverted = .ok () #[1, 0, 16, 3]) ∧
      forwardInPlace tables #[40] = .error (.shapeMismatch (.transformLength 4 1)) #[40] := by
  obtain ⟨tables, built⟩ := four_accepted
  obtain ⟨forwarded, inverted, ranForward, ranBack, ranInverse, ranAgain, _⟩ :=
    (inPlace_mutually_inverse built (by decide) #[1, 0, 16, 3]).1 rfl four_reduced
  have refused := (inPlace_mutually_inverse built (by decide) #[40]).2 (by decide)
  exact ⟨tables, built, ⟨forwarded, inverted, ranForward, ranBack, ranInverse, ranAgain⟩, refused.1⟩

end BankedRing.RootTables
