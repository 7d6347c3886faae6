import BankedRing.Proofs.Residue.CentredLift
import BankedRing.Proofs.Residue.Operation

/-! Lists of residues under another modulus. A change of the modulus gives every cell the
residue of the integer that it stands for, so that a detour over a larger modulus leaves no
trace. The target 2 has a path of its own, which flips the lowest bit of the upper residues:
under an odd modulus that is the same, under an even one it is the same below the half only. -/
namespace BankedRing.Operation

/-- An operation without a second operand computes each cell from its own residue, as far as
the destination reaches, and keeps what lies behind them. -/
theorem apply_unary_onto {operation prepared : Operation} (ready : operation.prepare = .ok prepared)
    (unary : prepared.isBinary = false) {g : Word → Word} {a : List Word}
    (exact : ∀ x ∈ a, prepared.cell x 0 = .ok (g x)) (b destination : List Word) :
    operation.apply a b destination =
      .ok ((a.take destination.length).map g ++ destination.drop a.length) := by
  have sources : prepared.sources a b = a.map fun x => (x, 0) := by
    cases prepared with
    | combine => simp [isBinary] at unary
    | _ => rfl
  have each : ∀ s ∈ prepared.sources a b, prepared.cell s.1 s.2 = .ok (g s.1) := by
    intro s member
    rw [sources] at member
    obtain ⟨x, here, rfl⟩ := List.mem_map.mp member
    exact exact x here
  rw [apply, ready, ok_bind, overwrite_eq_append each, sources, ← List.map_take, List.map_map,
    List.length_map]
  rfl

theorem apply_unary {operation prepared : Operation} (ready : operation.prepare = .ok prepared)
    (unary : prepared.isBinary = false) {g : Word → Word} {a : List Word}
    (exact : ∀ x ∈ a, prepared.cell x 0 = .ok (g x)) (b : List Word) {destination : List Word}
    (shape : destination.length = a.length) : operation.apply a b destination = .ok (a.map g) := by
  rw [apply_unary_onto ready unary exact, shape, List.take_length, ← shape, List.drop_length,
    List.append_nil]

section Recoding
variable {old new mid m : Word} {a : List Word}

theorem switchModulus_apply (hold : Modulus.isSupported old = true)
    (hnew : Modulus.isSupported new = true) (reduced : ∀ x ∈ a, x < old) (b : List Word)
    {destination : List Word} (shape : destination.length = a.length) :
    (Operation.switchModulus old new).apply a b destination =
      .ok (a.map fun x => integerResidue (centredLift old x) new) := by
  have exact : ∀ x ∈ a, (Operation.switchModulus old new).cell x 0 =
      .ok (integerResidue (centredLift old x) new) :=
    fun x member => Residue.switchModulus_eq_ok hold hnew (reduced x member)
  exact apply_unary rfl rfl exact b shape

/-- A larger modulus on the way makes no difference. -/
theorem switchModulus_through (hmid : Modulus.isSupported mid = true)
    (hnew : Modulus.isSupported new = true) (wide : old ≤ mid) (reduced : ∀ x ∈ a, x < old)
    (b : List Word) :
    (Operation.switchModulus mid new).kernel (a.map fun x => integerResidue (centredLift old x) mid)
      b =
      .ok (a.map fun x => integerResidue (centredLift old x) new) := by
  have encoded : ∀ y ∈ a.map fun x => integerResidue (centredLift old x) mid, y < mid := by
    intro y member
    obtain ⟨x, _, rfl⟩ := List.mem_map.mp member
    exact integerResidue_lt (Modulus.pos hmid) _
  rw [kernel, switchModulus_apply hmid hnew encoded b rfl, List.map_map]
  congr 1
  refine List.map_congr_left fun x member => ?_
  have centred : Centred mid (centredLift old x) :=
    (centred_centredLift (reduced x member)).mono wide
  exact congrArg (integerResidue · new) (centredLift_integerResidue centred)

/-- Under another modulus every cell is the one residue that is congruent to what it stood
for. Whichever larger modulus the list goes through, it ends in the same residues, and from
there it can be brought back. -/
theorem switchModulus_keeps_lift (hold : Modulus.isSupported old = true)
    (hnew : Modulus.isSupported new = true) (reduced : ∀ x ∈ a, x < old) (b : List Word) :
    ∃ out, (Operation.switchModulus old new).kernel a b = .ok out ∧ out.length = a.length ∧
      (∀ (i : Nat) (x w : Word), a[i]? = some x → out[i]? = some w →
        ∀ u : Word, u = w ↔ u < new ∧ (u.toNat : Int) ≡ centredLift old x [ZMOD new.toNat]) ∧
      ∀ mid, Modulus.isSupported mid = true → old ≤ mid →
        ∃ wider, (Operation.switchModulus old mid).kernel a b = .ok wider ∧
          (Operation.switchModulus mid new).kernel wider b = .ok out ∧
          (Operation.switchModulus mid old).kernel wider b = .ok a := by
  refine ⟨_, switchModulus_apply hold hnew reduced b rfl, List.length_map _, ?_, ?_⟩
  · intro i x w here there u
    rw [List.getElem?_map, here, Option.map_some, Option.some.injEq] at there
    subst there
    exact eq_integerResidue_iff (Modulus.pos hnew)
  · intro mid hmid wide
    have own : a.map (fun x => integerResidue (centredLift old x) old) = a := by
      conv_rhs => rw [← List.map_id a]
      exact List.map_congr_left fun x member => integerResidue_centredLift (reduced x member)
    refine ⟨_, switchModulus_apply hold hmid reduced b rfl,
      switchModulus_through hmid hnew wide reduced b, ?_⟩
    rw [switchModulus_through hmid hold wide reduced b, own]

/-- From six to seven, the two residues next to the half, and on to four. -/
theorem switchModulus_keeps_lift_six :
    Modulus.isSupported 6 = true ∧ Modulus.isSupported 4 = true ∧
    (∀ x ∈ ([3, 4, 5] : List Word), x < 6) ∧
      Modulus.isSupported 7 = true ∧ (6 : Word) ≤ 7 ∧
      (Operation.switchModulus 6 4).kernel [3, 4, 5] [] = .ok [3, 2, 3] ∧
      (∀ u : Word, u = 2 ↔ u < 4 ∧ (u.toNat : Int) ≡ -2 [ZMOD 4]) ∧
      (Operation.switchModulus 6 7).kernel [3, 4, 5] [] = .ok [3, 5, 6] ∧
      (Operation.switchModulus 7 4).kernel [3, 5, 6] [] = .ok [3, 2, 3] ∧
      (Operation.switchModulus 7 6).kernel [3, 5, 6] [] = .ok [3, 4, 5] := by
  have six : Modulus.isSupported 6 = true := by decide
  have four : Modulus.isSupported 4 = true := by decide
  have seven : Modulus.isSupported 7 = true := by decide
  have reduced : ∀ x ∈ ([3, 4, 5] : List Word), x < 6 := by simp
  have narrow : (Operation.switchModulus 6 4).kernel [3, 4, 5] [] = .ok [3, 2, 3] := by decide
  have wide : (Operation.switchModulus 6 7).kernel [3, 4, 5] [] = .ok [3, 5, 6] := by decide
  obtain ⟨out, ran, _, unique, through⟩ := switchModulus_keeps_lift six four reduced []
  cases narrow.symm.trans ran
  obtain ⟨wider, widened, onward, back⟩ := through 7 seven (by decide)
  cases wide.symm.trans widened
  exact ⟨six, four, reduced, seven, by decide, narrow, unique 1 4 2 rfl rfl, wide, onward, back⟩

theorem parity_apply (m : Word) (a b : List Word) {destination : List Word}
    (shape : destination.length = a.length) :
    (Operation.parity m).apply a b destination = .ok (a.map (Residue.parity m)) := by
  have exact : ∀ x ∈ a, (Operation.parity m).cell x 0 = .ok (Residue.parity m x) := fun _ _ => rfl
  exact apply_unary rfl rfl exact b shape

/-- The parity of a list, in place or into another list, and the same list under the modulus 2.
The second gives the parity of what each residue stands for. The first does so under an odd
modulus; under an even one it gives the other parity to every residue above the half. -/
theorem parity_of_lift (supported : Modulus.isSupported m = true) (reduced : ∀ x ∈ a, x < m)
    (b : List Word) {destination : List Word} (shape : destination.length = a.length) :
    (Operation.parity m).apply a b destination = .ok (a.map (Residue.parity m)) ∧
      (Operation.changeModulus m 2).apply a b destination = .ok (a.map (Residue.parity m)) ∧
      (Operation.switchModulus m 2).apply a b destination =
        .ok (a.map fun x => integerResidue (centredLift m x) 2) ∧
      ∀ x ∈ a, Residue.parity m x < 2 ∧
        ((integerResidue (centredLift m x) 2).toNat : Int) = centredLift m x % 2 ∧
        (Residue.parity m x = integerResidue (centredLift m x) 2 ↔
          m.toNat % 2 = 1 ∨ x.toNat ≤ m.toNat / 2) := by
  have two : Modulus.isSupported 2 = true := by decide
  refine ⟨parity_apply m a b shape, ?_, switchModulus_apply supported two reduced b shape, ?_⟩
  · -- The target 2 takes the path of the parity.
    exact parity_apply m a b shape
  · intro x _
    refine ⟨?_, cast_integerResidue (Modulus.pos two) _, Residue.parity_eq_iff m x⟩
    rw [UInt64.lt_iff_toNat_lt, Residue.toNat_parity]
    exact Nat.mod_lt _ Nat.two_pos

/-- Under 97 the last residue but one stands for the odd number -3. -/
theorem parity_of_lift_odd :
    Modulus.isSupported 97 = true ∧ (∀ x ∈ ([3, 94, 10] : List Word), x < 97) ∧
      ([0, 0, 0] : List Word).length = ([3, 94, 10] : List Word).length ∧
      (Operation.parity 97).apply [3, 94, 10] [] [0, 0, 0] = .ok [1, 1, 0] ∧
      (Operation.changeModulus 97 2).apply [3, 94, 10] [] [0, 0, 0] = .ok [1, 1, 0] ∧
      (Operation.switchModulus 97 2).apply [3, 94, 10] [] [0, 0, 0] = .ok [1, 1, 0] ∧
      centredLift 97 94 = -3 ∧ Residue.parity 97 94 = integerResidue (centredLift 97 94) 2 := by
  have supported : Modulus.isSupported 97 = true := by decide
  have reduced : ∀ x ∈ ([3, 94, 10] : List Word), x < 97 := by simp
  obtain ⟨parity, change, switched, each⟩ := parity_of_lift supported reduced [] (by rfl)
  obtain ⟨_, _, agrees⟩ := each 94 (by decide)
  have bits : ([3, 94, 10] : List Word).map (Residue.parity 97) = [1, 1, 0] := by decide
  have lifted : ([3, 94, 10] : List Word).map (fun x => integerResidue (centredLift 97 x) 2) =
    [1, 1, 0] := by decide
  rw [bits] at parity change
  rw [lifted] at switched
  exact ⟨supported, reduced, rfl, parity, change, switched, by decide, agrees.mpr (.inl rfl)⟩

/-- Under 4 the residue 3 stands for the odd number -1 and is called even. -/
theorem parity_even_modulus :
    Modulus.isSupported 4 = true ∧ (3 : Word) < 4 ∧ centredLift 4 3 = -1 ∧
      (Operation.parity 4).kernel [3] [] = .ok [0] ∧
      (Operation.parity 4).apply [3] [] [0] = .ok [0] ∧
      (Operation.changeModulus 4 2).kernel [3] [] = .ok [0] ∧
      (Operation.switchModulus 4 2).kernel [3] [] = .ok [1] := by
  decide

end Recoding

end BankedRing.Operation
