import BankedRing.Proofs.Partition
import Mathlib.Data.Set.Function

/-! The slots of a partition. `locate` matches the residues of a batch with the slots of the
busy units one to one, `occupant` reads the residue off a slot, and staging and scattering
move every residue between its tower and its slot. Rows that carry a share on every busy unit
are the staged rows of the towers that they hold, so the two directions undo each other. -/
namespace BankedRing.Partition
variable {partition : Partition}

section Slots
variable {tower index : Nat}

/-- The tower and the position in it whose residue a slot holds. -/
def occupant (partition : Partition) (slot : Slot) : Nat × Nat :=
  (slot.unit / partition.split, slot.unit % partition.split * partition.share + slot.offset)

theorem part_lt (inside : index < partition.towerLength) :
    index / partition.share < partition.split :=
  Nat.div_lt_of_lt_mul (by rw [partition.share_mul_split]; exact inside)

theorem offset_lt (partition : Partition) (tower index : Nat) :
    (partition.locate tower index).offset < partition.share :=
  Nat.mod_lt _ partition.share_pos

theorem unit_locate_lt (ht : tower < partition.towers) (hi : index < partition.towerLength) :
    (partition.locate tower index).unit < partition.unitsRequired :=
  partition.unit_lt ht (part_lt hi)

theorem unitTower?_locate (ht : tower < partition.towers) (hi : index < partition.towerLength) :
    partition.unitTower? (partition.locate tower index).unit = some tower :=
  unitTower?_busy ht (part_lt hi)

theorem occupant_locate (hi : index < partition.towerLength) :
    partition.occupant (partition.locate tower index) = (tower, index) := by
  obtain ⟨quotient, remainder⟩ := (Nat.div_mod_unique partition.split_pos).mpr
    ⟨Nat.add_comm (index / partition.share) (partition.split * tower), part_lt hi⟩
  rw [Nat.mul_comm] at quotient remainder
  simp only [occupant, locate, quotient, remainder, Nat.div_add_mod']

theorem locate_occupant {slot : Slot} (ho : slot.offset < partition.share) :
    partition.locate (partition.occupant slot).1 (partition.occupant slot).2 = slot := by
  obtain ⟨quotient, remainder⟩ := (Nat.div_mod_unique partition.share_pos).mpr
    ⟨Nat.add_comm slot.offset (partition.share * (slot.unit % partition.split)), ho⟩
  rw [Nat.mul_comm] at quotient remainder
  simp only [occupant, locate, quotient, remainder, Nat.div_add_mod']

theorem occupant_inside {slot : Slot} (hu : slot.unit < partition.unitsRequired)
    (ho : slot.offset < partition.share) :
    (partition.occupant slot).1 < partition.towers ∧
    (partition.occupant slot).2 < partition.towerLength := by
  refine ⟨Nat.div_lt_of_lt_mul (by rw [Nat.mul_comm]; exact hu), ?_⟩
  have part := Nat.mod_lt slot.unit partition.split_pos
  have room := Nat.mul_le_mul_right partition.share (Nat.succ_le_of_lt part)
  rw [Nat.succ_mul, Nat.mul_comm partition.split, partition.share_mul_split] at room
  simp only [occupant]
  omega

/-- Every residue has a slot of its own, and every slot of a busy unit holds a residue. -/
theorem locate_bijOn (partition : Partition) :
    Set.BijOn (fun place : Nat × Nat => partition.locate place.1 place.2)
      {place | place.1 < partition.towers ∧ place.2 < partition.towerLength}
      {slot | slot.unit < partition.unitsRequired ∧ slot.offset < partition.share} := by
  have inverse : Set.InvOn partition.occupant (fun place : Nat × Nat =>
    partition.locate place.1 place.2)
      {place | place.1 < partition.towers ∧ place.2 < partition.towerLength}
      {slot | slot.unit < partition.unitsRequired ∧ slot.offset < partition.share} :=
    ⟨fun _ inside => occupant_locate inside.2, fun _ inside => locate_occupant inside.2⟩
  apply inverse.bijOn
  · rintro ⟨tower, index⟩ ⟨ht, hi⟩
    exact ⟨unit_locate_lt ht hi, partition.offset_lt tower index⟩
  · rintro slot ⟨hu, ho⟩
    exact occupant_inside hu ho

end Slots

section Rows
variable {rows : List (List Word)} {tower index : Nat}

theorem getElem?_row (towers : List (List Word)) (ht : tower < partition.towers)
    (hi : index < partition.towerLength) :
    (partition.row towers (partition.locate tower index).unit)[(partition.locate tower
      index).offset]? =
      (towers.getD tower [])[index]? := by
  simp only [locate]
  rw [row_busy towers ht (part_lt hi), getElem?_slice (Nat.mod_lt index partition.share_pos),
    Nat.div_add_mod']

theorem getElem?_rows {towers : List (List Word)} {units : Nat} (shaped : partition.Shaped towers)
    (enough : partition.unitsRequired ≤ units) (ht : tower < partition.towers)
    (hi : index < partition.towerLength) :
    (((List.range units).map (partition.row towers))[(partition.locate tower
      index).unit]?.bind fun row =>
      row[(partition.locate tower index).offset]?) = towers[tower]?.bind fun values =>
        values[index]? := by
  have inside : tower < towers.length := by rw [shaped.1]; exact ht
  rw [getElem?_map_range (Nat.lt_of_lt_of_le (unit_locate_lt ht hi) enough), Option.bind_some,
    getElem?_row towers ht hi, List.getD_eq_getElem?_getD, List.getElem?_eq_getElem inside]
  rfl

theorem getElem?_unitModuli {moduli : List Word} {units : Nat}
    (length : moduli.length = partition.towers) (enough : partition.unitsRequired ≤ units)
    (ht : tower < partition.towers) (hi : index < partition.towerLength) :
    ((List.range units).map (partition.unitModulus moduli))[(partition.locate tower index).unit]? =
      moduli[tower]? := by
  have carried : tower < moduli.length := by rw [length]; exact ht
  rw [getElem?_map_range (Nat.lt_of_lt_of_le (unit_locate_lt ht hi) enough), unitModulus,
    unitTower?_locate ht hi, Option.getD_some, List.getD_eq_getElem?_getD,
    List.getElem?_eq_getElem carried, Option.getD_some]

namespace Supplied
variable (supplied : partition.Supplied rows)
include supplied

theorem uniform (ht : tower < partition.towers) :
    ∀ row ∈ (rows.drop (tower * partition.split)).take partition.split,
      (row.take partition.share).length = partition.share := by
  intro row member
  obtain ⟨part, found⟩ := List.getElem?_of_mem member
  have inside : part < partition.split := by
    have := (List.getElem?_eq_some_iff.mp found).1
    rw [List.length_take] at this
    omega
  rw [getElem?_slice inside] at found
  rw [List.length_take, Nat.min_eq_left (supplied.2 _ row (partition.unit_lt ht inside) found)]

theorem length_gathered (ht : tower < partition.towers) :
    (partition.gathered rows tower).length = partition.towerLength := by
  have room := Nat.mul_le_mul_right partition.split (Nat.succ_le_of_lt ht)
  have enough : partition.towers * partition.split ≤ rows.length := supplied.1
  rw [Nat.succ_mul] at room
  rw [gathered, assemble, length_flatMap (supplied.uniform ht), length_slice,
    Nat.min_eq_left (by omega), Nat.mul_comm, partition.share_mul_split]

theorem getElem?_gathered (ht : tower < partition.towers) (hi : index < partition.towerLength) :
    (partition.gathered rows tower)[index]? =
      rows[(partition.locate tower index).unit]?.bind fun row =>
        row[(partition.locate tower index).offset]? := by
  have found : ∀ row : List Word, (row.take partition.share)[index % partition.share]? =
      row[index % partition.share]? :=
    fun row => List.getElem?_take_of_lt (partition.offset_lt tower index)
  simp only [gathered, assemble, getElem?_flatMap partition.share_pos (supplied.uniform ht),
    getElem?_slice (part_lt hi), found, locate]

theorem shaped_gathered : partition.Shaped (partition.gatheredTowers rows) := by
  refine ⟨by rw [gatheredTowers, List.length_map, List.length_range], ?_⟩
  intro values member
  obtain ⟨tower, ht, rfl⟩ := List.mem_map.mp member
  exact supplied.length_gathered (List.mem_range.mp ht)

/-- The staged row of gathered towers is the share that the unit had brought. -/
theorem row_gathered {unit : Nat} {row : List Word} (busy : unit < partition.unitsRequired)
    (found : rows[unit]? = some row) :
    partition.row (partition.gatheredTowers rows) unit = row.take partition.share := by
  have carries : partition.unitTower? unit = some (unit / partition.split) := if_pos busy
  have ht := unitTower?_lt carries
  have hp := Nat.mod_lt unit partition.split_pos
  have here : ((rows.drop (unit / partition.split * partition.split)).take partition.split)[unit %
    partition.split]? =
      some row := by
    rw [getElem?_slice hp, Nat.div_add_mod', found]
  have held : (partition.gatheredTowers rows).getD (unit / partition.split) [] =
      partition.gathered rows (unit / partition.split) := by
    rw [gatheredTowers, List.getD_eq_getElem?_getD, getElem?_map_range ht, Option.getD_some]
  conv_lhs => rw [← Nat.div_add_mod' unit partition.split]
  rw [row_busy _ ht hp, held]
  exact slice_flatMap (supplied.uniform ht) here

end Supplied

/-- Rows of one share each: the busy ones are the staged rows of the towers that they hold. -/
theorem supplied_of_even (enough : partition.unitsRequired ≤ rows.length)
    (even : ∀ row ∈ rows, row.length = partition.share) : partition.Supplied rows :=
  ⟨enough, fun _ row _ found => Nat.le_of_eq (even row (List.mem_of_getElem? found)).symm⟩

theorem getElem?_of_even (enough : partition.unitsRequired ≤ rows.length)
    (even : ∀ row ∈ rows, row.length = partition.share) {unit : Nat}
    (busy : unit < partition.unitsRequired) :
    rows[unit]? = some (partition.row (partition.gatheredTowers rows) unit) := by
  have found := List.getElem?_eq_getElem (Nat.lt_of_lt_of_le busy enough)
  have whole :=
    List.take_of_length_le (Nat.le_of_eq
      (even _ (List.getElem_mem (Nat.lt_of_lt_of_le busy enough))))
  rw [(supplied_of_even enough even).row_gathered busy found, whole, found]

/-- Staging what even rows hold gives the rows of the busy units back, and zeros behind them. -/
theorem stage_gathered (enough : partition.unitsRequired ≤ rows.length)
    (even : ∀ row ∈ rows, row.length = partition.share)
    (host : rowFootprint * rows.length < 9223372036854775808) :
    partition.stage (partition.gatheredTowers rows) rows.length =
      .ok (rows.take partition.unitsRequired ++
        List.replicate (rows.length - partition.unitsRequired)
          (List.replicate partition.share 0)) := by
  have front : (rows.take partition.unitsRequired).length = partition.unitsRequired := by
    rw [List.length_take, Nat.min_eq_left enough]
  rw [stage_eq_ok (supplied_of_even enough even).shaped_gathered enough host]
  refine congrArg Except.ok (rows_append_idle enough front fun unit busy => ?_).symm
  rw [List.getElem?_take_of_lt busy, getElem?_of_even enough even busy]

end Rows

section Inverse
variable {towers towerLength split units : Nat}

/-- Each residue has its slot, on a unit that carries its tower and works under its modulus.
Staging puts the residues of a batch into their slots, scattering takes them back from there
into towers of the same shape, whatever these held, and rows of one share each come back from
the towers that they were scattered into. The host keeps a record of `rowFootprint` bytes for a
staged row and a word for a modulus, so that it cannot list the rows of arbitrarily many units. -/
theorem staging_scattering_inverse (made : new towers towerLength split = .ok partition)
    (enough : towers * split ≤ units) :
    Set.BijOn (fun place : Nat × Nat => partition.locate place.1 place.2)
        {place | place.1 < towers ∧ place.2 < towerLength}
        {slot | slot.unit < towers * split ∧ slot.offset < towerLength / split} ∧
      (∀ tower index, tower < towers → index < towerLength →
        partition.unitTower? (partition.locate tower index).unit = some tower) ∧
      (8 * units < 9223372036854775808 → ∀ moduli : List Word, moduli.length = towers →
        ∃ list, partition.unitModuli moduli units = .ok list ∧ list.length = units ∧
          ∀ tower index, tower < towers → index < towerLength →
            list[(partition.locate tower index).unit]? = moduli[tower]?) ∧
      (rowFootprint * units < 9223372036854775808 →
        (∀ data blank : List (List Word), partition.Shaped data → partition.Shaped blank →
          ∃ rows, partition.stage data units = .ok rows ∧ rows.length = units ∧
            (∀ tower index, tower < towers → index < towerLength →
              (rows[(partition.locate tower index).unit]?.bind fun row =>
                row[(partition.locate tower index).offset]?) =
                data[tower]?.bind fun values => values[index]?) ∧
            partition.scatter rows blank = .ok () data) ∧
        ∀ rows blank : List (List Word), rows.length = units →
          (∀ row ∈ rows, row.length = towerLength / split) →
          partition.Shaped blank →
          ∃ data, partition.scatter rows blank = .ok () data ∧
            partition.stage data units = .ok (rows.take (towers * split) ++
              List.replicate (units - towers * split)
                (List.replicate (towerLength / split) 0))) := by
  obtain ⟨_, _, rfl, rfl, rfl⟩ := new_eq_ok_iff.mp made
  refine ⟨partition.locate_bijOn, fun tower index => unitTower?_locate, ?_, fun host => ⟨?_, ?_⟩⟩
  · intro host moduli length
    exact ⟨_, unitModuli_eq_ok length enough host, by rw [List.length_map, List.length_range],
      fun tower index => getElem?_unitModuli length enough⟩
  · intro data blank shaped blanks
    refine ⟨_, stage_eq_ok shaped enough host, by rw [List.length_map, List.length_range],
      fun tower index => getElem?_rows shaped enough, ?_⟩
    refine scatter_eq_ok (by rwa [List.length_map, List.length_range]) blanks shaped
      fun unit busy => ?_
    exact getElem?_map_range (Nat.lt_of_lt_of_le busy enough) _
  · intro rows blank length even blanks
    subst length
    exact ⟨_, scatter_supplied (supplied_of_even enough even) blanks,
      stage_gathered enough even host⟩

/-- Two towers in three parts each, and a unit to spare. -/
theorem staging_scattering_inverse_three :
    ∃ partition, new 2 6 3 = .ok partition ∧ 2 * 3 ≤ 7 ∧ 8 * 7 < 9223372036854775808 ∧
      rowFootprint * 7 < 9223372036854775808 ∧
      Set.BijOn (fun place : Nat × Nat => partition.locate place.1 place.2)
        {place | place.1 < 2 ∧ place.2 < 6} {slot | slot.unit < 6 ∧ slot.offset < 2} ∧
      partition.locate 1 3 = ⟨4, 1⟩ ∧ partition.unitTower? 4 = some 1 ∧
      (∃ list, partition.unitModuli [17, 19] 7 = .ok list ∧ list.length = 7 ∧ list[4]? = some 19) ∧
      (∃ rows, partition.stage [[1, 2, 3, 4, 5, 6], [11, 12, 13, 14, 15, 16]] 7 = .ok rows ∧
        rows.length = 7 ∧
        (rows[4]?.bind fun row => row[1]?) = some 14 ∧
        partition.scatter rows [[0, 0, 0, 0, 0, 0], [9, 9, 9, 9, 9, 9]] =
          .ok () [[1, 2, 3, 4, 5, 6], [11, 12, 13, 14, 15, 16]]) ∧
      ∃ data, partition.scatter [[1, 2], [3, 4], [5, 6], [7, 8], [9, 10], [11, 12], [13, 14]]
          [[0, 0, 0, 0, 0, 0], [0, 0, 0, 0, 0, 0]] = .ok () data ∧
        partition.stage data 7 = .ok [[1, 2], [3, 4], [5, 6], [7, 8], [9, 10],
          [11, 12], [0, 0]] := by
  have made : new 2 6 3 = .ok ⟨2, 6, 3, by decide, by decide⟩ := rfl
  obtain ⟨slots, carried, moduli, rows⟩ :=
    staging_scattering_inverse made (show 2 * 3 ≤ 7 by decide)
  obtain ⟨staged, scattered⟩ := rows (by decide)
  obtain ⟨list, listed, length, each⟩ := moduli (by decide) [17, 19] rfl
  obtain ⟨rows, cut, count, placed, back⟩ := staged [[1, 2, 3, 4, 5, 6], [11, 12, 13, 14, 15, 16]]
    [[0, 0, 0, 0, 0, 0], [9, 9, 9, 9, 9, 9]] ⟨rfl, by decide⟩ ⟨rfl, by decide⟩
  exact ⟨_, made, by decide, by decide, by decide, slots, rfl, carried 1 3 (by decide) (by decide),
    ⟨list, listed, length, each 1 3 (by decide) (by decide)⟩,
    ⟨rows, cut, count, placed 1 3 (by decide) (by decide), back⟩,
    scattered [[1, 2], [3, 4], [5, 6], [7, 8], [9, 10], [11, 12], [13, 14]] [[0, 0, 0, 0, 0, 0],
      [0, 0, 0, 0, 0, 0]]
      rfl (by decide) ⟨rfl, by decide⟩⟩

/-- One tower on one unit, among more units than the host can list rows or moduli for. -/
theorem stage_unlisted :
    ∃ partition, new 1 1 1 = .ok partition ∧ 1 * 1 ≤ 384307168202282326 ∧ partition.Shaped [[5]] ∧
      partition.stage [[5]] 384307168202282326 = .error (.trapped .oversized) ∧
      partition.unitModuli [7] 1152921504606846976 = .error (.trapped .oversized) :=
  ⟨⟨1, 1, 1, by decide, by decide⟩, rfl, by decide, ⟨rfl, by decide⟩, rfl, rfl⟩

end Inverse

end BankedRing.Partition
