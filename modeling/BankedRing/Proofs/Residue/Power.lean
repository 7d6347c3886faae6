import BankedRing.Proofs.Residue.Recoding

/-! Powers of residues. A power is exact for every base and every exponent under every admitted
modulus; a list of powers brings its exponent below the modulus once, before the first cell. -/
namespace BankedRing.Operation
variable {m : Word}

theorem prepare_power (positive : 0 < m.toNat) (e : Word) :
    (Operation.power e m).prepare = .ok (.power (residue e.toNat m) m) := by
  rw [prepare, Residue.reduce_eq_ok e positive, ok_bind]
  rfl

theorem power_apply (supported : Modulus.isSupported m = true) (e : Word)
    (a b destination : List Word) :
    (Operation.power e m).apply a b destination =
      .ok ((a.take destination.length).map (fun x => residue (x.toNat ^ (e.toNat % m.toNat)) m) ++
        destination.drop a.length) := by
  have positive := Modulus.pos supported
  have exact : ∀ x ∈ a, (Operation.power (residue e.toNat m) m).cell x 0 =
      .ok (residue (x.toNat ^ (e.toNat % m.toNat)) m) := by
    intro x _
    rw [cell, Residue.pow_eq_ok supported, toNat_residue _ positive]
  exact apply_unary_onto (prepare_power positive e) rfl exact b destination

/-- Under every admitted modulus every word has each of its powers, with any exponent. On a list
the exponent is first brought below the modulus; then every cell that the destination has room
for receives its power. -/
theorem power_exact (supported : Modulus.isSupported m = true) :
    (∀ b e : Word, ∃ r, Residue.pow b e m = .ok r ∧ r.toNat = b.toNat ^ e.toNat % m.toNat) ∧
      ∀ e : Word, ∃ power : Word → Word,
        (∀ x, (power x).toNat = x.toNat ^ (if e < m then e.toNat
          else e.toNat % m.toNat) % m.toNat) ∧
        ∀ a b : List Word, (Operation.power e m).kernel a b = .ok (a.map power) ∧
          ∀ destination, (Operation.power e m).apply a b destination =
            .ok ((a.take destination.length).map power ++ destination.drop a.length) := by
  have positive := Modulus.pos supported
  refine ⟨fun b e => ⟨_, Residue.pow_eq_ok supported b e, toNat_residue _ positive⟩, fun e => ?_⟩
  refine ⟨_, fun x => ?_, fun a b => ⟨?_, power_apply supported e a b⟩⟩
  · have exponent : (if e < m then e.toNat else e.toNat % m.toNat) = e.toNat % m.toNat := by
      split
      · rename_i below
        rw [Nat.mod_eq_of_lt (UInt64.lt_iff_toNat_lt.mp below)]
      · rfl
    rw [toNat_residue _ positive, exponent]
  · have inPlace := power_apply supported e a b a
    rwa [List.take_length, List.drop_length, List.append_nil] at inPlace

/-- A base far above the modulus, and on a list an exponent that is five above it. -/
theorem power_exact_above :
    Modulus.isSupported 97 = true ∧
      (∃ r, Residue.pow 18446744073709551615 200 97 = .ok r ∧
        r.toNat = 18446744073709551615 ^ 200 % 97) ∧
      (Operation.power 102 97).kernel [0, 3, 100] [] = .ok [0, 49, 49] ∧
      (Operation.power 102 97).apply [0, 3, 100] [] [7, 7] = .ok [0, 49] := by
  have supported : Modulus.isSupported 97 = true := by decide
  obtain ⟨single, lists⟩ := power_exact supported
  obtain ⟨power, value, cells⟩ := lists 102
  obtain ⟨inPlace, onto⟩ := cells [0, 3, 100] []
  have zero : power 0 = 0 := UInt64.toNat_inj.mp ((value 0).trans (by decide))
  have three : power 3 = 49 := UInt64.toNat_inj.mp ((value 3).trans (by decide))
  have hundred : power 100 = 49 := UInt64.toNat_inj.mp ((value 100).trans (by decide))
  refine ⟨supported, single _ _, ?_, ?_⟩
  · rw [inPlace, List.map_cons, List.map_cons, List.map_cons, zero, three, hundred]
    rfl
  · rw [onto [7, 7]]
    show Except.ok [power 0, power 3] = _
    rw [zero, three]

end BankedRing.Operation
