import BankedRing.Proofs.Residue.Operation
import BankedRing.Proofs.Transform.Tables

/-! The transforms of words. Under faithful tables every node of the word network ends in
reduced words that stand for what the butterfly network computes; so the forward transform
evaluates a polynomial, and the inverse transform takes it back exactly. -/
namespace BankedRing

/-- A computation of reduced words that stand for a list over the ring. -/
def Computes (m : Word) (outcome : Checked (List Word)) (v : List (ZMod m.toNat)) : Prop :=
  ∃ out, outcome = .ok out ∧ (∀ x ∈ out, x < m) ∧ residues m out = v

theorem Computes.append {m : Word} {first second : Checked (List Word)} {v w : List (ZMod m.toNat)}
    (left : Computes m first v) (right : Computes m second w) :
    Computes m (do return (← first) ++ (← second)) (v ++ w) := by
  obtain ⟨low, rfl, lowReduced, rfl⟩ := left
  obtain ⟨high, rfl, highReduced, rfl⟩ := right
  refine ⟨low ++ high, rfl, fun x member => ?_, List.map_append⟩
  rcases List.mem_append.mp member with member | member
  · exact lowReduced x member
  · exact highReduced x member

section Cells
variable {m : Word} {low high : List Word}

theorem Twiddle.Represents.scale_eq_ok {t : Twiddle} {w : ZMod m.toNat}
    (represents : t.Represents m w) (supported : Modulus.isSupported m = true) (x : Word) :
    t.scale m x = .ok (residue (x.toNat * t.factor.toNat) m) ∧
      ((residue (x.toNat * t.factor.toNat) m).toNat : ZMod m.toNat) = x.toNat * w := by
  have half : m.toNat ≤ 2 ^ 63 := by
    have := Modulus.lt_two_pow supported
    omega
  constructor
  · rw [Twiddle.scale, represents.companion]
    exact Residue.mulFixed_eq_ok half represents.reduced x
  · rw [cast_residue _ (Modulus.pos supported), Nat.cast_mul, represents.value]

theorem Twiddle.Represents.scales {t : Twiddle} {w : ZMod m.toNat} (represents : t.Represents m w)
    (supported : Modulus.isSupported m = true) (values : List Word) :
    Computes m (values.mapM (t.scale m)) ((residues m values).map (· * w)) := by
  refine ⟨_, mapM_eq_ok fun x _ => (represents.scale_eq_ok supported x).1, fun y member => ?_, ?_⟩
  · obtain ⟨x, _, rfl⟩ := List.mem_map.mp member
    exact residue_lt _ (Modulus.pos supported)
  · rw [residues, residues, List.map_map, List.map_map]
    exact List.map_congr_left fun x _ => (represents.scale_eq_ok supported x).2

theorem Family.cast_number (family : Family) {u v : Nat} (h : v < m.toNat) :
    (family.number m.toNat u v : ZMod m.toNat) = family.inRing (u : ZMod m.toNat) v := by
  cases family with
  | add => exact Nat.cast_add u v
  | sub =>
    rw [number, inRing, Nat.cast_add, Nat.cast_sub (Nat.le_of_lt h), ZMod.natCast_self, zero_sub,
    sub_eq_add_neg]
  | mul => exact Nat.cast_mul u v

/-- Combined residues stand for the combined elements of the ring. -/
theorem residues_combined (family : Family) (positive : 0 < m.toNat) (reduced : ∀ v ∈ high, v < m) :
    residues m (family.combined m low high) =
      List.zipWith family.inRing (residues m low) (residues m high) := by
  have cells : List.zipWith (fun u v : Word => family.inRing (u.toNat : ZMod m.toNat) v.toNat)
    low high =
      (low.zip high).map fun pair => family.inRing (pair.1.toNat : ZMod m.toNat) pair.2.toNat := by
    rw [List.zip_eq_zipWith, List.map_zipWith]
  rw [residues, residues, residues, Family.combined, List.map_map, List.zipWith_map, cells]
  refine List.map_congr_left fun pair member => (cast_residue _ positive).trans ?_
  exact family.cast_number (UInt64.lt_iff_toNat_lt.mp (reduced pair.2 (List.of_mem_zip member).2))

theorem sumsAndDifferences_eq_ok (supported : Modulus.isSupported m = true)
    (hlow : ∀ u ∈ low, u < m) (hhigh : ∀ v ∈ high, v < m) :
    RootTables.sumsAndDifferences m low high =
      .ok (Family.add.combined m low high, Family.sub.combined m low high) := by
  have each : ∀ family : Family, ∀ pair ∈ low.zip high,
    family.apply m (family.constant m) pair.1 pair.2 =
      .ok (residue (family.number m.toNat pair.1.toNat pair.2.toNat) m) := fun family pair member =>
    family.apply_eq_ok supported (hlow pair.1 (List.of_mem_zip member).1)
      (hhigh pair.2 (List.of_mem_zip member).2)
  have differences := mapM_eq_ok (each .sub)
  refine (congrArg (· >>= _) (mapM_eq_ok (each .add))).trans ?_
  exact congrArg (· >>= fun differences => Except.ok (Family.add.combined m low high, differences))
    differences

end Cells

namespace RootTables
variable {tables : RootTables} {bits : ℕ} {psi psi' : ZMod tables.modulus.toNat}

section Nodes
variable (rooted : tables.Rooted bits psi psi')
include rooted

/-- Every node of the forward network computes its node of the butterfly network. -/
theorem forwardFrom_computes {level depth node : ℕ} (inside : node < 2 ^ level)
    (total : level + depth = bits + 1) {values : List Word}
    (reduced : ∀ x ∈ values, x < tables.modulus) :
    Computes tables.modulus (forwardFrom tables depth node values)
      (Butterfly.forward (slot psi bits) depth node (residues tables.modulus values)) := by
  have positive := Modulus.pos rooted.supported
  induction depth generalizing level node values with
  | zero => exact ⟨values, rfl, reduced, rfl⟩
  | succ depth ih =>
    have known : node < 2 ^ bits :=
      Nat.lt_of_lt_of_le inside (Nat.pow_le_pow_right (by decide) (by omega))
    have deeper : 2 * node + 1 < 2 ^ (level + 1) := by
      rw [pow_succ]
      omega
    obtain ⟨t, found, represents⟩ := rooted.forward node known
    have lowReduced : ∀ u ∈ values.take (2 ^ depth), u < tables.modulus := by
      intro u member
      exact reduced u (List.mem_of_mem_take member)
    obtain ⟨scaled, ran, scaledReduced, stands⟩ :=
      represents.scales rooted.supported (values.drop (2 ^ depth))
    have both := sumsAndDifferences_eq_ok rooted.supported lowReduced scaledReduced
    have computes := Computes.append
      (ih (Nat.lt_of_succ_lt deeper) (by omega)
        (Family.add.combined_lt positive (values.take (2 ^ depth)) scaled))
      (ih deeper (by omega) (Family.sub.combined_lt positive (values.take (2 ^ depth)) scaled))
    rw [residues_combined .add positive scaledReduced,
      residues_combined .sub positive scaledReduced,
      stands] at computes
    rw [residues_take, residues_drop] at computes
    simp only [forwardFrom, found, Nat.one_shiftLeft, ran, both, ok_bind]
    exact computes

/-- Every node of the inverse network computes its node of the butterfly network. -/
theorem inverseFrom_computes {level depth node : ℕ} (inside : node < 2 ^ level)
    (total : level + depth = bits + 1) {values : List Word}
    (reduced : ∀ x ∈ values, x < tables.modulus) :
    Computes tables.modulus (inverseFrom tables depth node values)
      (Butterfly.inverse (slot psi' bits) depth node (residues tables.modulus values)) := by
  have positive := Modulus.pos rooted.supported
  induction depth generalizing level node values with
  | zero => exact ⟨values, rfl, reduced, rfl⟩
  | succ depth ih =>
    have known : node < 2 ^ bits :=
      Nat.lt_of_lt_of_le inside (Nat.pow_le_pow_right (by decide) (by omega))
    have deeper : 2 * node + 1 < 2 ^ (level + 1) := by
      rw [pow_succ]
      omega
    obtain ⟨t, found, represents⟩ := rooted.inverse node known
    have lowWords : ∀ u ∈ values.take (2 ^ depth), u < tables.modulus := by
      intro u member
      exact reduced u (List.mem_of_mem_take member)
    have highWords : ∀ u ∈ values.drop (2 ^ depth), u < tables.modulus := by
      intro u member
      exact reduced u (List.mem_of_mem_drop member)
    obtain ⟨low, ranLow, lowReduced, lowStands⟩ := ih (Nat.lt_of_succ_lt deeper) (by omega) lowWords
    obtain ⟨high, ranHigh, highReduced, highStands⟩ := ih deeper (by omega) highWords
    have both := sumsAndDifferences_eq_ok rooted.supported lowReduced highReduced
    have computes := Computes.append ⟨_, rfl, Family.add.combined_lt positive low high, rfl⟩
      (represents.scales rooted.supported (Family.sub.combined tables.modulus low high))
    rw [residues_combined .add positive highReduced, residues_combined .sub positive highReduced,
      lowStands,
      highStands, residues_take, residues_drop] at computes
    simp only [inverseFrom, found, Nat.one_shiftLeft, ranLow, ranHigh, both, ok_bind]
    exact computes

theorem forward_computes {values : List Word} (reduced : ∀ x ∈ values, x < tables.modulus) :
    Computes tables.modulus (forwardFrom tables bits 1 values)
      (Butterfly.forward (slot psi bits) bits 1 (residues tables.modulus values)) :=
  forwardFrom_computes rooted (show 1 < 2 ^ 1 by decide) (Nat.add_comm 1 bits) reduced

theorem inverse_computes {values : List Word} (reduced : ∀ x ∈ values, x < tables.modulus) :
    Computes tables.modulus (inverseFrom tables bits 1 values)
      (Butterfly.inverse (slot psi' bits) bits 1 (residues tables.modulus values)) :=
  inverseFrom_computes rooted (show 1 < 2 ^ 1 by decide) (Nat.add_comm 1 bits) reduced

end Nodes

/-- The numbers at which the forward transform evaluates. -/
def points {R : Type} [CommRing R] (psi : R) (bits : ℕ) : List R :=
  Butterfly.points (slot psi bits) bits 1 (-1)

section Transforms
variable {values out a b fa fb : List Word}

section Built
variable (rooted : tables.Rooted bits psi psi')
include rooted

theorem checkLength_eq_ok (length : values.length = 2 ^ bits) :
    tables.checkLength values = .ok () :=
  if_pos (length.trans rooted.length.symm)

/-- The forward transform evaluates. -/
theorem forwardTransform_eq_ok (length : values.length = 2 ^ bits)
    (reduced : ∀ x ∈ values, x < tables.modulus) :
    ∃ out, forwardTransform tables values = .ok out ∧ out.length = 2 ^ bits ∧
      (∀ x ∈ out, x < tables.modulus) ∧
      residues tables.modulus out =
        (points psi bits).map fun x =>
          (Butterfly.polynomial (residues tables.modulus values)).eval x := by
  obtain ⟨out, ran, outReduced, stands⟩ := forward_computes rooted reduced
  have same : (residues tables.modulus values).length = 2 ^ bits := (length_residues _).trans length
  have evaluates := Butterfly.forward_eq_evaluations (splits_slot rooted.minusOne) same
  refine ⟨out, ?_, ?_, outReduced, stands.trans evaluates⟩
  · simp only [forwardTransform, checkLength_eq_ok rooted length, ok_bind, rooted.length,
      Nat.log2_two_pow, ran]
    rfl
  · have count := congrArg List.length stands
    rwa [length_residues, Butterfly.length_forward same] at count

/-- The inverse transform runs the inverse network and scales what comes out of it. -/
theorem inverseTransform_eq_scaled {u : ZMod tables.modulus.toNat}
    (represents : tables.lengthInverse.Represents tables.modulus u)
    (length : values.length = 2 ^ bits) (reduced : ∀ x ∈ values, x < tables.modulus) :
    ∃ out, inverseTransform tables values = .ok out ∧ out.length = 2 ^ bits ∧
      (∀ x ∈ out, x < tables.modulus) ∧
      residues tables.modulus out =
        (Butterfly.inverse (slot psi' bits) bits 1 (residues tables.modulus values)).map
          (· * u) := by
  obtain ⟨joined, ranJoined, _, joinedStands⟩ := inverse_computes rooted reduced
  obtain ⟨out, ran, outReduced, outStands⟩ := represents.scales rooted.supported joined
  rw [joinedStands] at outStands
  refine ⟨out, ?_, ?_, outReduced, outStands⟩
  · simp only [inverseTransform, checkLength_eq_ok rooted length, ok_bind, inverseScaled,
      rooted.length,
      Nat.log2_two_pow, ranJoined, ran]
    rfl
  · have same : (residues tables.modulus values).length = 2 ^ bits :=
      (length_residues _).trans length
    have count := congrArg List.length outStands
    rwa [length_residues, List.length_map, Butterfly.length_inverse same] at count

end Built

variable (faithful : tables.Faithful bits psi psi')
include faithful

theorem inverseTransform_eq_ok (length : values.length = 2 ^ bits)
    (reduced : ∀ x ∈ values, x < tables.modulus) (ran : forwardTransform tables values = .ok out) :
    inverseTransform tables out = .ok values := by
  obtain ⟨out, forwarded, outLength, outReduced, _⟩ :=
    forwardTransform_eq_ok faithful.toRooted length reduced
  cases forwarded.symm.trans ran
  obtain ⟨transformed, again, _, stands⟩ := forward_computes faithful.toRooted reduced
  simp only [forwardTransform, checkLength_eq_ok faithful.toRooted length, ok_bind, faithful.length,
    Nat.log2_two_pow,
    again] at ran
  cases ran
  obtain ⟨u, represents, unit⟩ := faithful.scale
  obtain ⟨back, inverted, _, backReduced, backStands⟩ :=
    inverseTransform_eq_scaled faithful.toRooted represents outLength outReduced
  have same : (residues tables.modulus values).length = 2 ^ bits := (length_residues _).trans length
  have identity : residues tables.modulus back = residues tables.modulus values := by
    rw [backStands, stands, Butterfly.scaled_inverse_forward unit
      (slot_mul_slot faithful.inverses) same]
  rw [inverted, residues_injective backReduced reduced identity]

/-- What combines the evaluations of two lists combines the evaluated polynomials. -/
theorem inverseTransform_combined (family : Family) {c : List Word} (lengthA : a.length = 2 ^ bits)
    (lengthB : b.length = 2 ^ bits) (lengthC : c.length = 2 ^ bits)
    (reducedA : ∀ x ∈ a, x < tables.modulus) (reducedB : ∀ x ∈ b, x < tables.modulus)
    (reducedC : ∀ x ∈ c, x < tables.modulus) (ranA : forwardTransform tables a = .ok fa)
    (ranB : forwardTransform tables b = .ok fb)
    (pointwise : ∀ x ∈ points psi bits, (Butterfly.polynomial (residues tables.modulus c)).eval x =
      family.inRing ((Butterfly.polynomial (residues tables.modulus a)).eval x)
        ((Butterfly.polynomial (residues tables.modulus b)).eval x)) :
    inverseTransform tables (family.combined tables.modulus fa fb) = .ok c := by
  have positive := Modulus.pos faithful.supported
  obtain ⟨fa, forwardedA, _, _, standsA⟩ :=
    forwardTransform_eq_ok faithful.toRooted lengthA reducedA
  obtain ⟨fb, forwardedB, _, fbReduced, standsB⟩ :=
    forwardTransform_eq_ok faithful.toRooted lengthB reducedB
  obtain ⟨fc, forwardedC, _, fcReduced, standsC⟩ :=
    forwardTransform_eq_ok faithful.toRooted lengthC reducedC
  cases forwardedA.symm.trans ranA
  cases forwardedB.symm.trans ranB
  have same : family.combined tables.modulus fa fb = fc := by
    refine residues_injective (family.combined_lt positive fa fb) fcReduced ?_
    rw [residues_combined family positive fbReduced, standsA, standsB, standsC, List.zipWith_map,
      List.zipWith_self]
    exact List.map_congr_left fun x member => (pointwise x member).symm
  rw [same]
  exact inverseTransform_eq_ok faithful lengthC reducedC forwardedC

end Transforms
end RootTables
end BankedRing
